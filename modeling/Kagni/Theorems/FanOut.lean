import Kagni.Events
import Kagni.Lemmas.Hub
import Kagni.Trio

/-!
# A subscriber that is going away

After a protocol error the channel of a connection is closed at once, but its session leaves the hub only when the writer has
ended. Between the two, a frame that is published to the session raises in the publisher.
-/

namespace Kagni.Trio

open Lib Lib.Prog

namespace Conn

/-- Between a protocol error and the end of the handler. -/
def draining (c : Conn) : Bool :=
  match c.reader with
  | .draining _ => true
  | _ => false

/-- The channel is closed while the connection drains and when its handler is through, and at no other time. -/
def Settled (c : Conn) : Prop := c.send_closed = true ↔ c.draining = true ∨ c.reader = .finished

theorem settled_open {c c' : Conn} (h : c.Settled) (hopen : c.draining = false ∧ c.reader ≠ .finished)
    (hclosed : c'.send_closed = c.send_closed)
    (hopen' : c'.draining = false ∧ c'.reader ≠ .finished) : c'.Settled := by
  have hc : c.send_closed ≠ true := fun h' => (h.1 h').elim (by simp [hopen.1]) hopen.2
  unfold Settled
  rw [hclosed]
  exact ⟨fun h' => absurd h' hc, fun h' => h'.elim (by simp [hopen'.1]) (fun hf => absurd hf hopen'.2)⟩

theorem settled_same {c c' : Conn} (h : c.Settled) (hclosed : c'.send_closed = c.send_closed)
    (hreader : c'.reader = c.reader) : c'.Settled := by
  unfold Settled draining
  rw [hclosed, hreader]
  exact h

/-! ## What a push leaves alone -/

theorem send_nowait_keeps {c c' : Conn} {item : Frame} (h : c.send_nowait item = some c') :
    c'.reader = c.reader ∧ c'.send_closed = c.send_closed := by
  unfold send_nowait at h
  split at h
  · obtain rfl := Option.some.inj h
    exact ⟨rfl, rfl⟩
  · split at h
    · obtain rfl := Option.some.inj h
      exact ⟨rfl, rfl⟩
    · cases h

theorem push_frame_keeps {c c' : Conn} {frame : Bytes} (h : c.push_frame frame = some c') :
    c'.reader = c.reader ∧ c'.send_closed = c.send_closed := by
  unfold push_frame at h
  split at h
  · cases h
  · obtain rfl := Option.some.inj h
    cases hsend : ({ c with made := c.made + 1 } : Conn).send_nowait (c.made, frame) with
    | none => exact ⟨rfl, rfl⟩
    | some d => exact (send_nowait_keeps hsend :)

theorem pushes_keep {c c' : Conn} {frames : List Bytes} (h : frames.foldlM push_frame c = some c') :
    c'.reader = c.reader ∧ c'.send_closed = c.send_closed := by
  induction frames generalizing c with
  | nil =>
    obtain rfl := Option.some.inj h
    exact ⟨rfl, rfl⟩
  | cons frame frames ih =>
    rw [List.foldlM_cons] at h
    obtain ⟨d, hd, hrest⟩ := Option.bind_eq_some_iff.1 h
    obtain ⟨hr, hc⟩ := push_frame_keeps hd
    obtain ⟨hr', hc'⟩ := ih hrest
    exact ⟨hr'.trans hr, hc'.trans hc⟩

theorem deliver_keeps {c c' : Conn} {frame : Bytes} (h : c.deliver frame = some c') :
    c'.reader = c.reader ∧ c'.send_closed = c.send_closed := by
  unfold Conn.deliver at h
  split at h
  · obtain rfl := Option.some.inj h
    exact ⟨rfl, rfl⟩
  · exact push_frame_keeps h

/-- A frame is refused exactly while the connection drains. -/
theorem Settled.deliver_eq_none {c : Conn} (h : c.Settled) (frame : Bytes) : c.deliver frame = none ↔ c.draining = true := by
  unfold Conn.deliver
  split
  · rename_i hreader
    simp [draining, hreader]
  · rename_i hreader
    unfold push_frame
    split
    · rename_i hclosed
      exact ⟨fun _ => (h.1 hclosed).resolve_right hreader, fun _ => rfl⟩
    · rename_i hopen
      exact ⟨nofun, fun hdraining => absurd (h.2 (.inl hdraining)) hopen⟩

/-! ## The read task and the writer -/

/-- Where the read task is after a function that goes on with a direct send or a subscribed-mode reply: not at the end. -/
def Serving (c c' : Conn) : Prop := c'.send_closed = c.send_closed ∧ c'.draining = false ∧ c'.reader ≠ .finished

theorem serving_queueReply (c : Conn) (reply : Frame) (requests : List Value) : c.Serving (c.queueReply reply requests) := by
  unfold queueReply
  dsimp only
  cases hsend : { c with idle_event := false }.send_nowait reply with
  | none => exact ⟨rfl, rfl, nofun⟩
  | some d => exact ⟨(send_nowait_keeps hsend).2, rfl, nofun⟩

theorem serving_locked_send (c : Conn) (direct : List Frame) (reply : Option Frame) (requests : List Value) :
    c.Serving (c._locked_send direct reply requests) := by
  unfold _locked_send
  split <;> exact ⟨rfl, rfl, nofun⟩

theorem serving_direct_send (c : Conn) (direct : List Frame) (reply : Option Frame) (requests : List Value) :
    c.Serving (c._direct_send direct reply requests) := by
  unfold _direct_send
  split
  · exact serving_locked_send ..
  · exact ⟨rfl, rfl, nofun⟩

theorem serving_reply (c : Conn) (requests : List Value) (direct : List Frame) (subscribed : Bool) (frame : Bytes) :
    c.Serving (c.reply requests direct subscribed frame) := by
  unfold reply
  dsimp only
  split
  · split
    · exact serving_queueReply { c with made := c.made + 1 } ..
    · exact serving_direct_send { c with made := c.made + 1 } ..
  · exact ⟨rfl, rfl, nofun⟩

theorem Settled.read {c c' : Conn} {act : ReadAct} (h : c.Settled) (hread : c.read act = some c') : c'.Settled := by
  have hserving {d : Conn} (hopen : c.draining = false ∧ c.reader ≠ .finished) (hd : c.Serving d) : d.Settled :=
    settled_open h hopen hd.1 hd.2
  unfold Conn.read at hread
  split at hread
  case h_2 text hreader =>
    obtain rfl := Option.some.inj hread
    exact ⟨fun _ => .inl rfl, fun _ => rfl⟩
  case h_4 message requests direct outcome hreader =>
    obtain ⟨d, hpushed, rfl⟩ := Option.map_eq_some_iff.1 hread
    obtain ⟨-, hc⟩ := pushes_keep hpushed
    refine hserving ⟨by simp [draining, hreader], by simp [hreader]⟩ ?_
    cases outcome.reply with
    | none => exact ⟨hc, rfl, nofun⟩
    | some frame =>
      obtain ⟨hclosed, hopen⟩ := serving_reply d requests direct outcome.subscribed frame
      exact ⟨hclosed.trans hc, hopen⟩
  case h_6 direct hreader =>
    obtain rfl := Option.some.inj hread
    refine hserving ⟨by simp [draining, hreader], by simp [hreader]⟩ ?_
    split
    · exact ⟨rfl, rfl, nofun⟩
    · exact serving_direct_send ..
  case h_7 direct reply requests hreader =>
    split at hread
    · obtain rfl := Option.some.inj hread
      exact hserving ⟨by simp [draining, hreader], by simp [hreader]⟩ (serving_locked_send ..)
    · cases hread
  case h_8 direct reply requests hreader =>
    split at hread
    · obtain rfl := Option.some.inj hread
      exact hserving ⟨by simp [draining, hreader], by simp [hreader]⟩ (serving_locked_send ..)
    · cases hread
  case h_9 reply requests hreader =>
    refine hserving ⟨by simp [draining, hreader], by simp [hreader]⟩ ?_
    dsimp only at hread
    cases reply with
    | none =>
      obtain rfl := Option.some.inj hread
      exact ⟨rfl, rfl, nofun⟩
    | some reply =>
      obtain rfl := Option.some.inj hread
      exact serving_queueReply { c with send_lock := none } ..
  case h_12 => cases hread
  all_goals
    rename_i hreader
    obtain rfl := Option.some.inj hread
    exact hserving ⟨by simp [draining, hreader], by simp [hreader]⟩ ⟨rfl, rfl, nofun⟩

theorem Settled.receive_nowait {c : Conn} (h : c.Settled) : c.receive_nowait.Settled := by
  unfold Conn.receive_nowait
  split
  · split
    · exact settled_same h rfl rfl
    · exact settled_same h rfl rfl
  · split
    · rename_i hreader
      exact settled_open h ⟨by simp [draining, hreader], by simp [hreader]⟩ rfl ⟨rfl, nofun⟩
    · exact settled_same h rfl rfl

theorem Settled.write {c c' : Conn} {act : WriteAct} (h : c.Settled) (hwrite : c.write act = some c') : c'.Settled := by
  unfold Conn.write at hwrite
  split at hwrite
  · split at hwrite
    · obtain rfl := Option.some.inj hwrite
      exact settled_same h rfl rfl
    · cases hwrite
  · obtain rfl := Option.some.inj hwrite
    exact Settled.receive_nowait (c := { c with send_lock := none }) h
  · obtain rfl := Option.some.inj hwrite
    exact settled_same h rfl rfl
  · split at hwrite
    · obtain rfl := Option.some.inj hwrite
      exact settled_same h rfl rfl
    · cases hwrite
  · cases hwrite

theorem Settled.cancel {c c' : Conn} (h : c.Settled) (hcancel : c.cancel = some c') : c'.Settled := by
  unfold Conn.cancel at hcancel
  split at hcancel
  · split at hcancel
    · cases hcancel
    · obtain rfl := Option.some.inj hcancel
      exact settled_same h rfl rfl
    · rename_i hfinished hdraining
      obtain rfl := Option.some.inj hcancel
      refine settled_open h ⟨?_, hfinished⟩ rfl ⟨rfl, nofun⟩
      unfold draining
      split
      · rename_i line hreader
        exact absurd hreader (hdraining line)
      · rfl
  · cases hcancel

theorem Settled.teardown {c c' : Conn} (h : c.Settled) (hteardown : c.teardown = some c') : c'.Settled := by
  unfold Conn.teardown at hteardown
  split at hteardown
  · obtain rfl := Option.some.inj hteardown
    exact ⟨fun _ => .inr rfl, fun _ => rfl⟩
  · rename_i hreader hwriter
    obtain rfl := Option.some.inj hteardown
    exact ⟨fun _ => .inr rfl, fun _ => h.2 (.inl (by simp [draining, hreader]))⟩
  · cases hteardown

theorem Settled.step {c c' : Conn} {act : Act} (h : c.Settled) (hstep : c.step act = some c') : c'.Settled := by
  have hguard {x : Option Conn} (h : (if c.busy then none else x) = some c') : x = some c' := by
    split at h
    · cases h
    · exact h
  cases act with
  | read act => exact h.read hstep
  | write act => exact h.write (hguard hstep)
  | push frame =>
    obtain ⟨hr, hc⟩ := push_frame_keeps (hguard hstep)
    exact settled_same h hc hr
  | cancel => exact h.cancel (hguard hstep)
  | teardown => exact h.teardown hstep

end Conn

/-! ## Delivery -/

namespace Backend

/-- Every name in the hub is a byte string, and every connection is settled. -/
structure Sound (b : Backend) : Prop where
  bytes : ∀ topic name subscribers, (b.hub.table topic).get name = some subscribers → name.IsBytes
  settled : ∀ i, (b.conns i).Settled

theorem sound_init : init.Sound where
  bytes topic _ _ h := by cases topic <;> cases h
  settled _ := ⟨nofun, fun h => h.elim nofun nofun⟩

theorem Sound.update {b : Backend} (h : b.Sound) {i : SessionId} {c : Conn} (hc : c.Settled) : (b.update i c).Sound := by
  refine ⟨h.bytes, fun j => ?_⟩
  unfold Backend.update
  dsimp only
  by_cases hj : j = i
  · subst hj
    rw [Function.update_self]
    exact hc
  · rw [Function.update_of_ne hj]
    exact h.settled j

/-- The frames were delivered: each connection got its own, in order. -/
def Delivered (b b' : Backend) (frames : List (SessionId × Bytes)) : Prop :=
  b'.hub = b.hub ∧ ∀ i, (framesFor i frames).foldlM Conn.deliver (b.conns i) = some (b'.conns i)

theorem Delivered.nil (b : Backend) : b.Delivered b [] := ⟨rfl, fun _ => rfl⟩

theorem framesFor_append (i : SessionId) (xs ys : List (SessionId × Bytes)) :
    framesFor i (xs ++ ys) = framesFor i xs ++ framesFor i ys := by
  simp [framesFor]

theorem Delivered.trans {b b' b'' : Backend} {xs ys : List (SessionId × Bytes)} (h : b.Delivered b' xs)
    (h' : b'.Delivered b'' ys) :
    b.Delivered b'' (xs ++ ys) := by
  refine ⟨h'.1.trans h.1, fun i => ?_⟩
  rw [framesFor_append, List.foldlM_append, h.2 i]
  exact h'.2 i

/-- Connections that got frames drain when they did before. -/
theorem Delivered.draining {b b' : Backend} {frames : List (SessionId × Bytes)} (h : b.Delivered b' frames) (i : SessionId) :
    (b'.conns i).draining = (b.conns i).draining := by
  have hkeep (frames : List Bytes) : ∀ c c' : Conn, frames.foldlM Conn.deliver c = some c' → c'.draining = c.draining := by
    induction frames with
    | nil =>
      intro c c' heq
      obtain rfl := Option.some.inj heq
      rfl
    | cons frame frames ih =>
      intro c c' heq
      rw [List.foldlM_cons] at heq
      obtain ⟨d, hd, hrest⟩ := Option.bind_eq_some_iff.1 heq
      rw [ih d c' hrest]
      unfold Conn.draining
      rw [(Conn.deliver_keeps hd).1]
  exact hkeep _ _ _ (h.2 i)

theorem Sound.deliver {b b' : Backend} (h : b.Sound) {i : SessionId} {frame : Bytes} {env : Env}
    (hrun : Trio.deliver i frame env b = (.ok (), b')) :
    b'.Sound := by
  unfold Trio.deliver at hrun
  cases hd : (b.conns i).deliver frame with
  | none =>
    rw [hd] at hrun
    cases hrun
  | some c =>
    rw [hd] at hrun
    obtain rfl := congrArg Prod.snd hrun
    obtain ⟨hr, hc⟩ := Conn.deliver_keeps hd
    exact h.update (Conn.settled_same (h.settled i) hc hr)

end Backend

/-- While the hub is `hub`, the program delivers the frames and returns `a`, and then `C` holds; or it raises, since one of
the frames is for a connection that drains or since `C` does not hold. -/
def Sends {α : Type} (env : Env) (hub : PubSubHub) (m : P α) (frames : List (SessionId × Bytes)) (C : Prop) (a : α) : Prop :=
  ∀ b : Backend, b.Sound → b.hub = hub →
    (∃ b', m env b = (.ok a, b') ∧ b'.Sound ∧ b.Delivered b' frames ∧ (∀ p ∈ frames, (b.conns p.1).draining = false) ∧ C) ∨
    ∃ b', m env b = (.error (), b') ∧ b'.Sound ∧ ((∃ p ∈ frames, (b.conns p.1).draining = true) ∨ ¬C)

namespace Sends

variable {α β : Type} {env : Env} {hub : PubSubHub} {m : P α} {xs ys : List (SessionId × Bytes)} {C D : Prop} {a : α}

theorem pure (a : α) : Sends env hub (Pure.pure a) [] True a := fun b h _ => .inl ⟨b, rfl, h, .nil b, nofun, trivial⟩

theorem congr (h : Sends env hub m xs C a) (hC : C ↔ D) : Sends env hub m xs D a := propext hC ▸ h

theorem bind {f : α → P β} {c : β} (hm : Sends env hub m xs C a) (hf : Sends env hub (f a) ys D c) :
    Sends env hub (m >>= f) (xs ++ ys) (C ∧ D) c := by
  intro b hb hhub
  rcases hm b hb hhub with ⟨b₁, hrun, hb₁, hdelivered, hxs, hC⟩ | ⟨b₁, hrun, hb₁, hwhy⟩
  · rw [bind_ok env b hrun]
    rcases hf b₁ hb₁ (hdelivered.1.trans hhub) with ⟨b₂, hrun', hb₂, hdelivered', hys, hD⟩ | ⟨b₂, hrun', hb₂, hwhy⟩
    · refine .inl ⟨b₂, hrun', hb₂, hdelivered.trans hdelivered', fun p hp => ?_, hC, hD⟩
      rcases List.mem_append.1 hp with hp | hp
      · exact hxs p hp
      · rw [← hdelivered.draining]
        exact hys p hp
    · refine .inr ⟨b₂, hrun', hb₂, hwhy.imp ?_ fun hD h => hD h.2⟩
      rintro ⟨p, hp, hdraining⟩
      rw [hdelivered.draining] at hdraining
      exact ⟨p, List.mem_append_right _ hp, hdraining⟩
  · refine .inr ⟨b₁, bind_error env b hrun, hb₁, hwhy.imp ?_ fun hC h => hC h.1⟩
    rintro ⟨p, hp, hdraining⟩
    exact ⟨p, List.mem_append_left _ hp, hdraining⟩

/-- A step that only computes. -/
theorem bind_of_run {f : α → P β} {c : β} (hm : ∀ b, m env b = (.ok a, b)) (hf : Sends env hub (f a) ys C c) :
    Sends env hub (m >>= f) ys C c := by
  intro b hb hhub
  rw [bind_ok env b (hm b)]
  exact hf b hb hhub

/-- A step that raises. -/
theorem bind_of_error {f : α → P β} (hm : ∀ b, m env b = (.error (), b)) (hC : ¬C) (ys : List (SessionId × Bytes)) (c : β) :
    Sends env hub (m >>= f) ys C c := fun b hb _ => .inr ⟨b, bind_error env b (hm b), hb, .inr hC⟩

theorem deliver (i : SessionId) (frame : Bytes) : Sends env hub (Trio.deliver i frame) [(i, frame)] True () := by
  intro b hb _
  cases hd : (b.conns i).deliver frame with
  | none =>
    have hrun : Trio.deliver i frame env b = (.error (), b) := by
      unfold Trio.deliver
      rw [hd]
    exact .inr ⟨b, hrun, hb, .inl ⟨(i, frame), List.mem_cons_self, ((hb.settled i).deliver_eq_none frame).1 hd⟩⟩
  | some c =>
    have hrun : Trio.deliver i frame env b = (.ok (), b.update i c) := by
      unfold Trio.deliver
      rw [hd]
    have hopen : (b.conns i).draining = false := by
      refine eq_false_of_ne_true ?_
      intro hdraining
      rw [((hb.settled i).deliver_eq_none frame).2 hdraining] at hd
      cases hd
    refine .inl ⟨_, hrun, hb.deliver hrun, ⟨rfl, fun j => ?_⟩, fun p hp => ?_, trivial⟩
    · unfold Backend.update
      dsimp only
      by_cases hj : i = j
      · subst hj
        rw [Function.update_self]
        simp [framesFor, hd]
      · rw [Function.update_of_ne (Ne.symm hj)]
        simp [framesFor, hj]
    · obtain rfl := List.mem_singleton.1 hp
      exact hopen

theorem each {γ : Type} {f : γ → P Unit} {frames : γ → List (SessionId × Bytes)} {C : γ → Prop} {l : List γ}
    (h : ∀ x ∈ l, Sends env hub (f x) (frames x) (C x) ()) :
    Sends env hub (Prog.each f l) (l.flatMap frames) (∀ x ∈ l, C x) () := by
  induction l with
  | nil => exact (pure ()).congr ⟨fun _ => nofun, fun _ => trivial⟩
  | cons x l ih =>
    rw [each_cons, List.flatMap_cons]
    have hrest := (h x List.mem_cons_self).bind (f := fun _ => Prog.each f l) (ih fun y hy => h y (List.mem_cons_of_mem _ hy))
    exact hrest.congr List.forall_mem_cons.symm

/-- A loop that counts what it sends. -/
theorem count {γ : Type} {f : Nat → γ → P Nat} {frames : γ → List (SessionId × Bytes)} {C : γ → Prop} {l : List γ}
    (h : ∀ x ∈ l, ∀ n, Sends env hub (f n x) (frames x) (C x) (n + (frames x).length)) (n : Nat) :
    Sends env hub (Prog.fold f n l) (l.flatMap frames) (∀ x ∈ l, C x) (n + (l.flatMap frames).length) := by
  induction l generalizing n with
  | nil => exact (pure n).congr ⟨fun _ => nofun, fun _ => trivial⟩
  | cons x l ih =>
    rw [fold_cons, List.flatMap_cons, List.length_append, ← Nat.add_assoc]
    have hrest := (h x List.mem_cons_self n).bind (f := fun n => Prog.fold f n l)
      (ih (fun y hy => h y (List.mem_cons_of_mem _ hy)) _)
    exact hrest.congr List.forall_mem_cons.symm

end Sends

/-- Whether a pattern compiles and matches a channel. -/
def matched (env : Env) (pattern channel : Bytes) : Bool := (env.glob pattern).any (· channel)

/-- One pattern: its subscribers get a frame each if it matches, and it has to compile. -/
theorem sends_pattern (env : Env) (hub : PubSubHub) (channel payload : Bytes) {p : Value × OrdSet SessionId}
    (hbytes : p.1.IsBytes) (n : Nat) :
    Sends env hub (do
      let matcher ← compile_glob p.1
      if matcher channel then
        let frame ← orRaise (build_pmessage p.1 (.bytes channel) (.bytes payload))
        Prog.each (fun i => Trio.deliver i frame) p.2.elems
        return n + p.2.elems.length
      else return n) (patternFrames (matched env) channel payload p) (∃ b, p.1 = .bytes b ∧ (env.glob b).isSome = true)
      (n + (patternFrames (matched env) channel payload p).length) := by
  obtain ⟨name, subscribers⟩ := p
  obtain ⟨pattern, rfl⟩ := (Value.isBytes_iff name).1 hbytes
  have hcompile (b : Backend) : compile_glob (.bytes pattern) env b = orRaise (env.glob pattern) env b := rfl
  dsimp only
  cases hglob : env.glob pattern with
  | none =>
    refine Sends.bind_of_error (fun b => ?_) ?_ _ _
    · rw [hcompile, hglob]
      rfl
    · rintro ⟨b, hb, hsome⟩
      cases hb
      rw [hglob] at hsome
      cases hsome
  | some matcher =>
    have hC : True ↔ ∃ b, Value.bytes pattern = .bytes b ∧ (env.glob b).isSome = true :=
      ⟨fun _ => ⟨pattern, rfl, by rw [hglob]; rfl⟩, fun _ => trivial⟩
    have hmatched : matched env pattern channel = matcher channel := by
      unfold matched
      rw [hglob]
      rfl
    have hrun (b : Backend) : compile_glob (.bytes pattern) env b = (.ok matcher, b) := by
      rw [hcompile, hglob]
      rfl
    refine Sends.bind_of_run hrun (Sends.congr ?_ hC)
    cases hmatch : matcher channel with
    | false =>
      have hframes : patternFrames (matched env) channel payload (.bytes pattern, subscribers) = [] :=
        if_neg (by simp [Value.globs, hmatched, hmatch])
      rw [hframes, if_neg Bool.false_ne_true]
      exact Sends.pure n
    | true =>
      obtain ⟨frame, hframe⟩ := Option.ne_none_iff_exists'.1 (build_pmessage_ne_none pattern channel payload)
      have hframes : patternFrames (matched env) channel payload (.bytes pattern, subscribers) =
          subscribers.elems.map fun i => (i, frame) := by
        refine (if_pos (hmatched.trans hmatch)).trans ?_
        rw [hframe]
        rfl
      have hsend : Sends env hub (Prog.each (fun i => Trio.deliver i frame) subscribers.elems)
        (subscribers.elems.map fun i => (i, frame))
          (∀ i ∈ subscribers.elems, True) () := by
        rw [List.map_eq_flatMap]
        exact Sends.each fun i _ => Sends.deliver i frame
      rw [hframes, if_pos rfl, List.length_map, hframe]
      refine Sends.bind_of_run (fun b => rfl) ?_
      have hrest := hsend.bind (f := fun _ => Pure.pure (n + subscribers.elems.length)) (Sends.pure _)
      rw [List.append_nil] at hrest
      exact hrest.congr (by simp)

/-- `publish` sends the fan-out, if every pattern compiles. -/
theorem sends_publish {env : Env} {hub : PubSubHub} (hbytes : ∀ p ∈ hub.patterns.entries, p.1.IsBytes) (channel payload : Bytes) :
    Sends env hub (publish channel payload) (fanout hub (matched env) channel payload) (hub.Compiles env)
      (fanout hub (matched env) channel payload).length := by
  obtain ⟨message, hmessage⟩ := Option.ne_none_iff_exists'.1 (build_message_ne_none channel payload)
  have hsubs : ((hub.channels.get (.bytes channel)).map OrdSet.elems).getD [] =
      (hub.subscribers .channels (.bytes channel)).elems := by
    unfold PubSubHub.subscribers PubSubHub.table
    cases hub.channels.get (.bytes channel) <;> rfl
  have hmessages : messageFrames hub channel payload =
      (hub.subscribers .channels (.bytes channel)).elems.flatMap fun i => [(i, message)] := by
    unfold messageFrames
    rw [hmessage, List.map_eq_flatMap]
    rfl
  have hchannel : Sends env hub
    (Prog.each (fun i => do Trio.deliver i (← orRaise (build_message (.bytes channel) (.bytes payload))))
      (hub.subscribers .channels (.bytes channel)).elems) (messageFrames hub channel payload)
      (∀ i ∈ (hub.subscribers .channels (.bytes channel)).elems, True) () := by
    rw [hmessages]
    refine Sends.each fun i _ => Sends.bind_of_run (fun b => ?_) (Sends.deliver i message)
    rw [hmessage]
    rfl
  have hpatterns := Sends.count (fun p hp n => sends_pattern env hub channel payload (hbytes p hp) n)
    (hub.subscribers .channels (.bytes channel)).elems.length
  have hrest := (hchannel.bind (f := fun _ => _) hpatterns).congr (D := hub.Compiles env) (by simp [PubSubHub.Compiles])
  intro b hb hhub
  have hrun := hrest b hb hhub
  have hlength : (hub.subscribers .channels (.bytes channel)).elems.length = (messageFrames hub channel payload).length := by
    unfold messageFrames
    rw [List.length_map]
  unfold publish
  rw [bind_ok env b (get_run env b), hhub, hsubs]
  unfold fanout
  rw [List.length_append, ← hlength]
  exact hrun

/-- The session subscribes to the channel or to a pattern that matches it. -/
def Hears (hub : PubSubHub) (glob : Bytes → Bytes → Bool) (i : SessionId) (channel : Bytes) : Prop :=
  i ∈ hub.subscribers .channels (.bytes channel) ∨ ∃ p ∈ hub.patterns.entries, i ∈ p.2 ∧ p.1.globs glob channel = true

theorem hears_iff (hub : PubSubHub) (glob : Bytes → Bytes → Bool) (i : SessionId) (channel payload : Bytes) :
    (∃ p ∈ fanout hub glob channel payload, p.1 = i) ↔ Hears hub glob i channel := by
  have hpattern (p : Value × OrdSet SessionId) :
      (∃ q ∈ patternFrames glob channel payload p, q.1 = i) ↔ i ∈ p.2 ∧ p.1.globs glob channel = true := by
    unfold patternFrames
    split
    · rename_i hmatch
      simp [hmatch, OrdSet.mem_def]
    · rename_i hmatch
      simp [hmatch]
  unfold Hears fanout
  constructor
  · rintro ⟨q, hq, rfl⟩
    rcases List.mem_append.1 hq with hq | hq
    · obtain ⟨j, hj, rfl⟩ := List.mem_map.1 hq
      exact .inl hj
    · obtain ⟨p, hp, hq⟩ := List.mem_flatMap.1 hq
      exact .inr ⟨p, hp, (hpattern p).1 ⟨q, hq, rfl⟩⟩
  · rintro (hi | ⟨p, hp, hi⟩)
    · exact ⟨_, List.mem_append_left _ (List.mem_map_of_mem hi), rfl⟩
    · obtain ⟨q, hq, hqi⟩ := (hpattern p).2 hi
      exact ⟨q, List.mem_append_right _ (List.mem_flatMap.2 ⟨p, hp, hq⟩), hqi⟩

/-! ## Runs -/

namespace Backend

variable {env : Env}

theorem Sound.pattern_bytes {b : Backend} (h : b.Sound) : ∀ p ∈ b.hub.patterns.entries, p.1.IsBytes :=
  fun p hp => h.bytes .patterns p.1 p.2 ((Dict.get_eq_some_iff b.hub.patterns p.1 p.2).2 hp)

theorem Sound.step {b b' : Backend} {event : Event} (h : b.Sound)
    (hstep : b.step env event = some b') : b'.Sound := by
  unfold Backend.step at hstep
  split at hstep
  · rename_i i
    obtain ⟨c, hc, rfl⟩ := Option.map_eq_some_iff.1 hstep
    refine ⟨fun topic name subscribers hget => ?_, (h.update ((h.settled i).teardown hc)).settled⟩
    dsimp only at hget
    rw [PubSubHub.get_remove_session] at hget
    obtain ⟨old, hold, -⟩ := Option.bind_eq_some_iff.1 hget
    exact h.bytes topic name old hold
  · rename_i i act _
    obtain ⟨c, hc, rfl⟩ := Option.map_eq_some_iff.1 hstep
    exact h.update ((h.settled i).step hc)
  · rename_i i topic name
    split at hstep
    · obtain rfl := Option.some.inj hstep
      refine ⟨fun topic' name' subscribers hget => ?_, h.settled⟩
      dsimp only at hget
      rw [PubSubHub.get_subscribe] at hget
      split at hget
      · rename_i hsame
        rw [hsame.2]
        exact (Value.isBytes_iff _).2 ⟨name, rfl⟩
      · exact h.bytes topic' name' subscribers hget
    · cases hstep
  · rename_i i topic name
    split at hstep
    · obtain rfl := Option.some.inj hstep
      refine ⟨fun topic' name' subscribers hget => ?_, h.settled⟩
      dsimp only at hget
      rw [PubSubHub.get_unsubscribe] at hget
      split at hget
      · rename_i hsame
        rw [hsame.2]
        exact (Value.isBytes_iff _).2 ⟨name, rfl⟩
      · exact h.bytes topic' name' subscribers hget
    · cases hstep
  · rename_i channel payload
    obtain rfl := Option.some.inj hstep
    rcases sends_publish h.pattern_bytes channel payload b h rfl with ⟨b', hrun, hb', -⟩ | ⟨b', hrun, hb', -⟩
    · rw [hrun]
      exact hb'
    · rw [hrun]
      exact hb'

/-- In every state of every run: what a command publishes, one message after the other, is delivered without an exception if
and only if no connection that drains after a protocol error hears any of it, and every pattern that somebody is subscribed to
compiles. -/
theorem published_iff {events : List Event} {b : Backend} (h : trace (step env) init events = some b)
    (messages : List (Bytes × Bytes)) :
    (∃ b', Prog.each (fun m => do let _ ← publish m.1 m.2) messages env b = (.ok (), b') ∧
      b.Delivered b' (messages.flatMap fun m => fanout b.hub (matched env) m.1 m.2)) ↔
    (∀ i, (b.conns i).draining = true → ∀ m ∈ messages, ¬Hears b.hub (matched env) i m.1) ∧
      (messages ≠ [] → b.hub.Compiles env) := by
  have hsound : b.Sound := trace.invariant (fun _ _ _ hs hstep => hs.step hstep) h sound_init
  have hsends : Sends env b.hub (Prog.each (fun m => do let _ ← publish m.1 m.2) messages)
      (messages.flatMap fun m => fanout b.hub (matched env) m.1 m.2) (∀ m ∈ messages, b.hub.Compiles env) () := by
    refine Sends.each ?_
    intro m _
    have hpublish : Sends env b.hub (publish m.1 m.2) _ _ _ := sends_publish hsound.pattern_bytes m.1 m.2
    have hrest := hpublish.bind (f := fun _ => Pure.pure ()) (Sends.pure ())
    rw [List.append_nil] at hrest
    exact hrest.congr (iff_of_eq (and_true _))
  have hcompiles : (∀ m ∈ messages, b.hub.Compiles env) ↔ (messages ≠ [] → b.hub.Compiles env) := by
    constructor
    · intro hall hne
      obtain ⟨m, hm⟩ := List.exists_mem_of_ne_nil messages hne
      exact hall m hm
    · exact fun hall m hm => hall (List.ne_nil_of_mem hm)
  have hheard : (∃ p ∈ messages.flatMap fun m => fanout b.hub (matched env) m.1 m.2, (b.conns p.1).draining = true) ↔
      ∃ i, (b.conns i).draining = true ∧ ∃ m ∈ messages, Hears b.hub (matched env) i m.1 := by
    constructor
    · rintro ⟨p, hp, hdraining⟩
      obtain ⟨m, hm, hp⟩ := List.mem_flatMap.1 hp
      exact ⟨p.1, hdraining, m, hm, (hears_iff b.hub (matched env) p.1 m.1 m.2).1 ⟨p, hp, rfl⟩⟩
    · rintro ⟨i, hdraining, m, hm, hhears⟩
      obtain ⟨p, hp, rfl⟩ := (hears_iff b.hub (matched env) i m.1 m.2).2 hhears
      exact ⟨p, List.mem_flatMap.2 ⟨m, hm, hp⟩, hdraining⟩
  rcases hsends b hsound rfl with ⟨b', hrun, -, hdelivered, hopen, hC⟩ | ⟨b', hrun, -, hwhy⟩
  · refine ⟨fun _ => ⟨fun i hdraining m hm hhears => ?_, hcompiles.1 hC⟩, fun _ => ⟨b', hrun, hdelivered⟩⟩
    obtain ⟨p, hp, hdraining'⟩ := hheard.2 ⟨i, hdraining, m, hm, hhears⟩
    rw [hopen p hp] at hdraining'
    cases hdraining'
  · constructor
    · rintro ⟨b'', hok, -⟩
      rw [hrun] at hok
      cases hok
    · rintro ⟨hnone, hC⟩
      rcases hwhy with hsome | hfails
      · obtain ⟨i, hdraining, m, hm, hhears⟩ := hheard.1 hsome
        exact absurd hhears (hnone i hdraining m hm)
      · exact absurd (hcompiles.2 hC) hfails

/-- Two connections subscribe to `news`. -/
def newsRun : List Event :=
  [.conn 1 (.read (.chunk [.array [.bytes (bs "SUBSCRIBE"), .bytes (bs "news")]])), .subscribe 1 .channels (bs "news"),
    .conn 1 (.read (.request ⟨[bs "*3\r\n$9\r\nsubscribe\r\n$4\r\nnews\r\n:1\r\n"], none, true⟩)), .conn 1 (.read .flush),
    .conn 2 (.read (.chunk [.array [.bytes (bs "SUBSCRIBE"), .bytes (bs "news")]])), .subscribe 2 .channels (bs "news"),
    .conn 2 (.read (.request ⟨[bs "*3\r\n$9\r\nsubscribe\r\n$4\r\nnews\r\n:1\r\n"], none, true⟩)), .conn 2 (.read .flush)]

/-- The backend after it. -/
def newsBackend : Backend := (trace (step .plain) init newsRun).getD init

/-- Both get what is published. -/
theorem published_iff_two :
    ∃ b', Prog.each (fun m => do let _ ← publish m.1 m.2) [(bs "news", bs "x")] .plain newsBackend = (.ok (), b') ∧
      newsBackend.Delivered b' ([(bs "news", bs "x")].flatMap fun m => fanout newsBackend.hub (matched .plain) m.1 m.2) := by
  have hrun : trace (step .plain) init newsRun = some newsBackend := rfl
  have hsubscribers : (newsBackend.hub.subscribers .channels (.bytes (bs "news"))).elems = [1, 2] := by decide +kernel
  have hpatterns : newsBackend.hub.patterns.entries = [] := by decide +kernel
  have hopen : ∀ i ∈ [1, 2], (newsBackend.conns i).draining = false := by decide +kernel
  refine (published_iff hrun [(bs "news", bs "x")]).2 ⟨fun i hdraining m hm hhears => ?_, fun _ p hp => ?_⟩
  · obtain rfl := List.mem_singleton.1 hm
    rcases hhears with hi | ⟨p, hp, -⟩
    · rw [OrdSet.mem_def, hsubscribers] at hi
      rw [hopen i hi] at hdraining
      cases hdraining
    · rw [hpatterns] at hp
      cases hp
  · rw [hpatterns] at hp
    cases hp

/-- Two subscribers, and the first has sent something that is no request: the publisher fails, and the second gets nothing. -/
theorem published_fails :
    let request : Value := .array [.bytes (bs "SUBSCRIBE"), .bytes (bs "news")]
    let subscribed : Outcome := ⟨[bs "*3\r\n$9\r\nsubscribe\r\n$4\r\nnews\r\n:1\r\n"], none, true⟩
    outcomes .plain ⟨0, 0⟩ 1 [request] (Server.init 0 none ∅ fun _ => true : Server Int) = some [subscribed] ∧
    ∃ b, trace (step .plain) init
      [.conn 1 (.read (.chunk [request])), .subscribe 1 .channels (bs "news"), .conn 1 (.read (.request subscribed)),
        .conn 1 (.read .flush),
        .conn 2 (.read (.chunk [request])), .subscribe 2 .channels (bs "news"), .conn 2 (.read (.request subscribed)),
          .conn 2 (.read .flush),
        .conn 1 (.read (.garbage (bs "invalid multibulk length")))] = some b ∧
      2 ∈ b.hub.subscribers .channels (.bytes (bs "news")) ∧ (b.conns 2).send_closed = false ∧
      (publish (bs "news") (bs "x") .plain b).1 = .error () ∧ ((publish (bs "news") (bs "x") .plain b).2.conns 2).made =
        (b.conns 2).made := by
  refine ⟨by decide +kernel, _, rfl, ?_, ?_, ?_, ?_⟩
  · decide +kernel
  · decide +kernel
  · decide +kernel
  · decide +kernel

end Backend

end Kagni.Trio
