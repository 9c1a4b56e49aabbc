import Kagni.Events

/-!
# Publishing an event

Publishing raises exactly where a subscribed pattern does not compile, and leaves the store alone either way.
-/

namespace Kagni

open Lib Lib.Prog

variable {F : Type} {ctx : Ctx}

/-! ## What publishing returns -/

/-- Events of one class are published alike. -/
theorem Ctx.eventReturns_congr {event event' : Event} (h : event.class_ = event'.class_) :
    ctx.EventReturns event ↔ ctx.EventReturns event' := by
  unfold EventReturns Publishes
  rw [h]

theorem Ctx.emits_of_returns {event : Event} (h : ctx.EventReturns event) : ctx.emits event = .ok () := if_pos h

theorem Ctx.emits_of_not {event : Event} (h : ¬ctx.EventReturns event) : ctx.emits event = .error .other := if_neg h

/-- With the notifications off no event raises anything. -/
theorem Ctx.quiet_of_off (h : ctx.flags = []) : ctx.Quiet := fun event hpublishes => by
  unfold Publishes at hpublishes
  rw [h] at hpublishes
  simp at hpublishes

/-- Nor does it with patterns that compile. -/
theorem Ctx.PatternsCompile.quiet (h : ctx.PatternsCompile) : ctx.Quiet := fun _ _ => h

theorem completes_deliver (session : SessionId) (frame : Bytes) : Completes ctx (deliver session frame : K F Unit) := .modify _

/-- A pattern that compiles is looked at, and its subscribers get their frames. -/
theorem completes_pattern {b : Bytes} (h : (ctx.env.glob b).isSome = true) (channel payload : Bytes)
    (subscribers : OrdSet SessionId) (n : Nat) :
    Completes ctx (do
      let matcher ← compile_glob (.bytes b)
      if ← matches_ matcher (.bytes channel) then
        let frame ← orFail (build_pmessage (.bytes b) (.bytes channel) (.bytes payload))
        Prog.each (fun session => deliver session frame) subscribers.elems
        return n + subscribers.elems.length
      else return n : K F Nat) := by
  obtain ⟨matcher, hmatcher⟩ := Option.isSome_iff_exists.1 h
  intro k
  have hcompile : (compile_glob (.bytes b) : K F _) ctx k = (.ok matcher, k) := by
    have hrun : (compile_glob (.bytes b) : K F _) ctx k = (orFail (ctx.env.glob b) : K F _) ctx k := rfl
    rw [hrun, hmatcher]
    rfl
  rw [bind_ok ctx k hcompile, bind_ok ctx k (show matches_ matcher (.bytes channel) ctx k = (.ok (matcher channel), k) from rfl)]
  split
  · obtain ⟨frame, hframe⟩ : ∃ frame, build_pmessage (.bytes b) (.bytes channel) (.bytes payload) = some frame := ⟨_, rfl⟩
    rw [hframe, bind_ok ctx k (show orFail (some frame) ctx k = (.ok frame, k) from rfl)]
    exact Completes.bind (.each fun session _ => completes_deliver session frame) (fun _ => .pure _) k
  · exact ⟨n, k, rfl⟩

/-- A pattern that does not compile raises. -/
theorem throws_pattern {p : Value} (h : ¬∃ b, p = .bytes b ∧ (ctx.env.glob b).isSome = true) {α : Type}
    (f : (Bytes → Bool) → K F α) :
    Throws ctx (compile_glob p >>= f) .other := by
  refine Throws.bind ?_
  intro k
  cases p with
  | bytes b =>
    have hnone : ctx.env.glob b = none := by
      rw [← Option.not_isSome_iff_eq_none]
      exact fun hsome => h ⟨b, rfl, hsome⟩
    have hrun : (compile_glob (.bytes b) : K F _) ctx k = (orFail (ctx.env.glob b) : K F _) ctx k := rfl
    rw [hrun, hnone]
    exact ⟨k, rfl⟩
  | _ => exact ⟨k, rfl⟩

/-- The subscribers of the channel get their frames. -/
theorem completes_channel (channel payload : Bytes) (sessions : List SessionId) :
    Completes ctx (Prog.each (fun session => do deliver session (← orFail (build_message (.bytes channel) (.bytes payload))))
      sessions : K F Unit) := by
  obtain ⟨frame, hframe⟩ : ∃ frame, build_message (.bytes channel) (.bytes payload) = some frame := ⟨_, rfl⟩
  rw [hframe]
  refine .each ?_
  intro session _
  exact .bind (.pure frame) fun frame => completes_deliver session frame

theorem completes_publish (h : ctx.PatternsCompile) (channel payload : Bytes) :
    Completes ctx (publish (.bytes channel) (.bytes payload) : K F Nat) := by
  intro k
  unfold publish
  rw [bind_ok ctx k (show needHash (.bytes channel) ctx k = (.ok (), k) from rfl), bind_ok ctx k (ask_run ctx k)]
  refine Completes.bind (completes_channel channel payload _) (fun _ => .fold fun p hp n => ?_) k
  obtain ⟨b, hb, hsome⟩ := h p hp
  rw [hb]
  exact completes_pattern hsome channel payload p.2 n

theorem throws_publish (h : ¬ctx.PatternsCompile) (channel payload : Bytes) :
    Throws ctx (publish (.bytes channel) (.bytes payload) : K F Nat) .other := by
  intro k
  unfold publish
  rw [bind_ok ctx k (show needHash (.bytes channel) ctx k = (.ok (), k) from rfl), bind_ok ctx k (ask_run ctx k)]
  unfold Ctx.PatternsCompile PubSubHub.Compiles at h
  refine Completes.bind_throws (completes_channel channel payload _) (fun _ => .fold (fun p _ => ?_) ?_) k
  · by_cases hp : ∃ b, p.1 = .bytes b ∧ (ctx.env.glob b).isSome = true
    · obtain ⟨b, hb, hsome⟩ := hp
      rw [hb]
      exact .inl fun n => completes_pattern hsome channel payload p.2 n
    · exact .inr fun n => throws_pattern hp _
  · obtain ⟨p, hp⟩ := not_forall.1 h
    obtain ⟨hp, hcompile⟩ := Classical.not_imp.1 hp
    exact ⟨p, hp, fun n => throws_pattern hcompile _⟩

/-- An event that can be published, or that nobody asked for, returns. -/
theorem completes_notify {event : Event} (h : ctx.EventReturns event) (key : Bytes) :
    Completes ctx (_notify (.bytes key) event : K F Unit) := by
  intro k
  unfold _notify
  rw [bind_ok ctx k (ask_run ctx k)]
  dsimp only
  split
  · exact ⟨(), k, rfl⟩
  rename_i hclass
  have hon : 65 ∈ ctx.flags ∨ event.class_ ∈ ctx.flags := by tauto
  have hevent : Completes ctx (do
      if 69 ∈ ctx.flags then let _ ← publish (.bytes (bs "__keyevent@0__:" ++ event.name)) (.bytes key) : K F Unit) := by
    split
    · exact .bind (completes_publish (h ⟨hon, .inr ‹_›⟩) _ _) fun _ => .pure ()
    · exact .pure ()
  split
  · exact Completes.bind (completes_publish (h ⟨hon, .inl ‹_›⟩) _ _) (fun _ => hevent) k
  · exact hevent k

/-- One that cannot raises an exception that is no `Error`. -/
theorem throws_notify {event : Event} (h : ¬ctx.EventReturns event) (key : Bytes) :
    Throws ctx (_notify (.bytes key) event : K F Unit) .other := by
  unfold Ctx.EventReturns at h
  obtain ⟨⟨hclass, hchannel⟩, hpatterns⟩ := Classical.not_imp.1 h
  intro k
  unfold _notify
  rw [bind_ok ctx k (ask_run ctx k)]
  dsimp only
  rw [if_neg (by
    rintro (hnil | hnone)
    · rw [hnil] at hchannel
      simp at hchannel
    · tauto)]
  by_cases hspace : 75 ∈ ctx.flags
  · rw [if_pos hspace]
    exact Throws.bind (throws_publish hpatterns _ _) k
  · rw [if_neg hspace, if_pos (hchannel.resolve_left hspace)]
    exact Throws.bind (throws_publish hpatterns _ _) k

end Kagni
