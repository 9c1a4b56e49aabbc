import Kagni.Lemmas.Runs
import Kagni.PubSub

/-!
# The tables of the hub

Who subscribes to what after each operation of the hub, and the frames of one `publish`.
-/

namespace Kagni

open Lib Lib.Prog

variable {F : Type}

namespace PubSubHub

theorem table_withTable (hub : PubSubHub) (f : Dict Value (OrdSet SessionId) → Dict Value (OrdSet SessionId))
    (topic topic' : Topic) :
    (hub.withTable f topic).table topic' = if topic' = topic then f (hub.table topic) else hub.table topic' := by
  cases topic <;> cases topic' <;> rfl

/-- No name is kept without a subscriber. -/
def NoEmpty (hub : PubSubHub) : Prop :=
  ∀ topic name subscribers, (hub.table topic).get name = some subscribers → subscribers.elems ≠ []

theorem get_putBack (table : Dict Value (OrdSet SessionId)) (name name' : Value) (subscribers : OrdSet SessionId) :
    (putBack table name subscribers).get name' =
      if name' = name then (if subscribers.elems = [] then none else some subscribers) else table.get name' := by
  unfold putBack
  split
  · rw [Dict.get_erase]
  · rw [Dict.get_set]

theorem mem_subscribers_iff (hub : PubSubHub) (topic : Topic) (name : Value) (i : SessionId) :
    i ∈ hub.subscribers topic name ↔ ∃ subscribers, (hub.table topic).get name = some subscribers ∧ i ∈ subscribers := by
  unfold subscribers
  cases (hub.table topic).get name with
  | none => simp
  | some subscribers => simp

/-! ### `subscribe` -/

theorem get_subscribe (hub : PubSubHub) (topic topic' : Topic) (i : SessionId) (name name' : Value) :
    ((hub.subscribe topic i name).table topic').get name' =
      if topic' = topic ∧ name' = name then some ((hub.subscribers topic name).insert i) else (hub.table topic').get name' := by
  unfold subscribe
  rw [table_withTable]
  by_cases ht : topic' = topic
  · subst ht
    rw [if_pos rfl, Dict.get_set]
    by_cases hn : name' = name
    · rw [if_pos hn, if_pos ⟨rfl, hn⟩]
      rfl
    · rw [if_neg hn, if_neg fun h => hn h.2]
  · rw [if_neg ht, if_neg fun h => ht h.1]

theorem mem_subscribers_subscribe (hub : PubSubHub) (topic topic' : Topic) (i j : SessionId) (name name' : Value) :
    j ∈ (hub.subscribe topic i name).subscribers topic' name' ↔
      (j = i ∧ topic' = topic ∧ name' = name) ∨ j ∈ hub.subscribers topic' name' := by
  have hget := get_subscribe hub topic topic' i name name'
  unfold subscribers
  rw [hget]
  by_cases h : topic' = topic ∧ name' = name
  · obtain ⟨rfl, rfl⟩ := h
    simp [subscribers]
  · rw [if_neg h]
    simp [h]

theorem NoEmpty.subscribe {hub : PubSubHub} (h : hub.NoEmpty) (topic : Topic) (i : SessionId) (name : Value) :
    (hub.subscribe topic i name).NoEmpty := by
  intro topic' name' subs hsubs
  rw [get_subscribe] at hsubs
  split at hsubs
  · cases hsubs
    have hmem : i ∈ (hub.subscribers topic name).insert i := (OrdSet.mem_insert ..).2 (.inl rfl)
    exact List.ne_nil_of_mem hmem
  · exact h topic' name' subs hsubs

/-! ### `unsubscribe` -/

theorem get_unsubscribe (hub : PubSubHub) (topic topic' : Topic) (i : SessionId) (name name' : Value) :
    ((hub.unsubscribe topic i name).table topic').get name' =
      if topic' = topic ∧ name' = name then
        ((hub.table topic).get name).bind fun subs => if (subs.erase i).elems = [] then none else some (subs.erase i)
      else (hub.table topic').get name' := by
  unfold unsubscribe
  rw [table_withTable]
  by_cases ht : topic' = topic
  · subst ht
    rw [if_pos rfl]
    by_cases hn : name' = name
    · subst hn
      rw [if_pos ⟨rfl, rfl⟩]
      cases hsubs : (hub.table topic').get name' with
      | none => exact hsubs
      | some subs =>
        dsimp only
        rw [get_putBack, if_pos rfl, Option.bind_some]
    · rw [if_neg fun h => hn h.2]
      cases (hub.table topic').get name with
      | none => rfl
      | some subs =>
        dsimp only
        rw [get_putBack, if_neg hn]
  · rw [if_neg ht, if_neg fun h => ht h.1]

/-- Discarding a session keeps every other one, also where the last one goes. -/
theorem mem_discard (subs? : Option (OrdSet SessionId)) (i j : SessionId) :
    j ∈ (subs?.bind fun subs => if (subs.erase i).elems = [] then none else some (subs.erase i)).getD ∅ ↔
      j ≠ i ∧ j ∈ subs?.getD ∅ := by
  cases subs? with
  | none => simp
  | some subs =>
    rw [Option.bind_some, Option.getD_some]
    by_cases h : (subs.erase i).elems = []
    · rw [if_pos h]
      have hnone : j ∉ subs.erase i := by
        rw [OrdSet.mem_def, h]
        exact List.not_mem_nil
      rw [OrdSet.mem_erase] at hnone
      simp only [Option.getD_none, OrdSet.not_mem_empty, false_iff]
      exact fun h => hnone ⟨h.2, h.1⟩
    · rw [if_neg h, Option.getD_some, OrdSet.mem_erase, and_comm]

theorem mem_subscribers_unsubscribe (hub : PubSubHub) (topic topic' : Topic) (i j : SessionId) (name name' : Value) :
    j ∈ (hub.unsubscribe topic i name).subscribers topic' name' ↔
      j ∈ hub.subscribers topic' name' ∧ ¬(j = i ∧ topic' = topic ∧ name' = name) := by
  have hget := get_unsubscribe hub topic topic' i name name'
  unfold subscribers
  rw [hget]
  by_cases h : topic' = topic ∧ name' = name
  · obtain ⟨rfl, rfl⟩ := h
    rw [if_pos ⟨rfl, rfl⟩, mem_discard]
    simp [and_comm]
  · rw [if_neg h]
    simp [h]

theorem noEmpty_discard {subs? : Option (OrdSet SessionId)} {i : SessionId} {subs : OrdSet SessionId}
    (h : (subs?.bind fun subs => if (subs.erase i).elems = [] then none else some (subs.erase i)) = some subs) :
    subs.elems ≠ [] := by
  cases subs? with
  | none => cases h
  | some old =>
    rw [Option.bind_some] at h
    split at h
    · cases h
    · cases h
      assumption

theorem NoEmpty.unsubscribe {hub : PubSubHub} (h : hub.NoEmpty) (topic : Topic) (i : SessionId) (name : Value) :
    (hub.unsubscribe topic i name).NoEmpty := by
  intro topic' name' subs hsubs
  rw [get_unsubscribe] at hsubs
  split at hsubs
  · exact noEmpty_discard hsubs
  · exact h topic' name' subs hsubs

/-! ### `remove_session` -/

theorem get_remove_session (hub : PubSubHub) (i : SessionId) (topic : Topic) (name : Value) :
    ((hub.remove_session i).table topic).get name =
      ((hub.table topic).get name).bind fun subs => if (subs.erase i).elems = [] then none else some (subs.erase i) := by
  have hdrop : ∀ table : Dict Value (OrdSet SessionId),
      (table.entries.foldl (fun t p => putBack t p.1 (p.2.erase i)) table).get name =
        (table.get name).bind fun subs => if (subs.erase i).elems = [] then none else some (subs.erase i) := by
    intro table
    rw [Dict.get_foldl_step (g := fun subs : OrdSet SessionId => if (subs.erase i).elems = [] then none else some (subs.erase i))
      (fun d p k => get_putBack d p.1 k (p.2.erase i)) table.entries table.nodup]
    change ((table.get name).map _).getD (table.get name) = _
    cases table.get name <;> rfl
  cases topic with
  | channels => exact hdrop hub.channels
  | patterns => exact hdrop hub.patterns

theorem mem_subscribers_remove_session (hub : PubSubHub) (i j : SessionId) (topic : Topic) (name : Value) :
    j ∈ (hub.remove_session i).subscribers topic name ↔ j ≠ i ∧ j ∈ hub.subscribers topic name := by
  unfold subscribers
  rw [get_remove_session, mem_discard]

theorem noEmpty_remove_session (hub : PubSubHub) (i : SessionId) : (hub.remove_session i).NoEmpty := by
  intro topic name subs hsubs
  rw [get_remove_session] at hsubs
  exact noEmpty_discard hsubs

end PubSubHub

/-! ## The frames of `publish` -/

/-- A frame for every subscriber. -/
theorem each_deliver (frame : Bytes) (sessions : List SessionId) (ctx : Ctx) (k : KState F) :
    Prog.each (fun session => deliver session frame) sessions ctx k =
      (.ok (), { k with pushed := k.pushed ++ sessions.map fun session => (session, frame) }) := by
  induction sessions generalizing k with
  | nil => simp
  | cons session sessions ih =>
    rw [each_cons, bind_ok ctx k (show deliver session frame ctx k = _ from rfl), ih]
    simp

theorem build_message_ne_none (channel payload : Bytes) : build_message (.bytes channel) (.bytes payload) ≠ none := by
  intro h
  obtain ⟨item, hitem, hnone⟩ := (protocolBuilder_list_eq_none_iff _).1 h
  simp only [List.mem_cons, List.not_mem_nil, or_false, Reply.ofValue] at hitem
  rcases hitem with rfl | rfl | rfl <;> exact absurd hnone (protocolBuilder_bytes_ne_none _)

theorem build_pmessage_ne_none (pattern channel payload : Bytes) :
    build_pmessage (.bytes pattern) (.bytes channel) (.bytes payload) ≠ none := by
  intro h
  obtain ⟨item, hitem, hnone⟩ := (protocolBuilder_list_eq_none_iff _).1 h
  simp only [List.mem_cons, List.not_mem_nil, or_false, Reply.ofValue] at hitem
  rcases hitem with rfl | rfl | rfl | rfl <;> exact absurd hnone (protocolBuilder_bytes_ne_none _)

/-- The frames for the subscribers of the channel. -/
def messageFrames (hub : PubSubHub) (channel payload : Bytes) : List (SessionId × Bytes) :=
  (hub.subscribers .channels (.bytes channel)).elems.map fun i => (i, (build_message (.bytes channel) (.bytes payload)).getD [])

/-- The frames for the subscribers of one pattern. -/
def patternFrames (glob : Bytes → Bytes → Bool) (channel payload : Bytes) (p : Value × OrdSet SessionId) :
    List (SessionId × Bytes) :=
  if p.1.globs glob channel then
    p.2.elems.map fun i => (i, (build_pmessage p.1 (.bytes channel) (.bytes payload)).getD [])
  else []

/-- The frames of `publish`. -/
def fanout (hub : PubSubHub) (glob : Bytes → Bytes → Bool) (channel payload : Bytes) : List (SessionId × Bytes) :=
  messageFrames hub channel payload ++ hub.patterns.entries.flatMap (patternFrames glob channel payload)

section Publish

variable {ctx : Ctx} {glob : Bytes → Bytes → Bool} (hglob : ∀ pattern, ctx.env.glob pattern = some (glob pattern))
include hglob

/-- One pattern: its subscribers get a frame each if it matches. -/
theorem publish_pattern (channel payload : Bytes) {p : Value × OrdSet SessionId} (hp : p.1.IsBytes) (receivers : Nat)
    (k : KState F) :
    (do
      let matcher ← compile_glob p.1
      if ← matches_ matcher (.bytes channel) then
        let frame ← orFail (build_pmessage p.1 (.bytes channel) (.bytes payload))
        Prog.each (fun session => deliver session frame) p.2.elems
        return receivers + p.2.elems.length
      else return receivers : K F Nat) ctx k =
      (.ok (receivers + (patternFrames glob channel payload p).length),
        { k with pushed := k.pushed ++ patternFrames glob channel payload p }) := by
  obtain ⟨name, subscribers⟩ := p
  obtain ⟨pattern, rfl⟩ := (Value.isBytes_iff name).1 hp
  have hcompile : (compile_glob (.bytes pattern) : K F _) ctx k = (.ok (glob pattern), k) := by
    have hrun : (compile_glob (.bytes pattern) : K F _) ctx k = (orFail (ctx.env.glob pattern) : K F _) ctx k := rfl
    rw [hrun, hglob]
    rfl
  rw [bind_ok ctx k hcompile,
    bind_ok ctx k (show matches_ (glob pattern) (.bytes channel) ctx k = (.ok (glob pattern channel), k) from rfl)]
  cases hmatch : glob pattern channel with
  | false =>
    have hframes : patternFrames glob channel payload (.bytes pattern, subscribers) = [] := if_neg (by simp [Value.globs, hmatch])
    rw [hframes]
    simp
  | true =>
    obtain ⟨frame, hframe⟩ := Option.ne_none_iff_exists'.1 (build_pmessage_ne_none pattern channel payload)
    have hframes : patternFrames glob channel payload (.bytes pattern, subscribers) =
        subscribers.elems.map fun i => (i, frame) := by
      refine (if_pos hmatch).trans ?_
      rw [hframe]
      rfl
    rw [hframes, if_pos rfl, hframe, bind_ok ctx k (show orFail (some frame) ctx k = (.ok frame, k) from rfl),
      bind_ok ctx k (each_deliver frame subscribers.elems ctx k)]
    simp

/-- What `publish` delivers, and how many frames it counts. -/
theorem publish_run (hpat : ∀ p ∈ ctx.hub.patterns.entries, p.1.IsBytes) (channel payload : Bytes) (k : KState F) :
    publish (.bytes channel) (.bytes payload) ctx k =
      (.ok (fanout ctx.hub glob channel payload).length,
        { k with pushed := k.pushed ++ fanout ctx.hub glob channel payload }) := by
  obtain ⟨frame, hframe⟩ := Option.ne_none_iff_exists'.1 (build_message_ne_none channel payload)
  have hsubs : ((ctx.hub.channels.get (.bytes channel)).map OrdSet.elems).getD [] =
      (ctx.hub.subscribers .channels (.bytes channel)).elems := by
    unfold PubSubHub.subscribers PubSubHub.table
    cases ctx.hub.channels.get (.bytes channel) <;> rfl
  have hchannel : Prog.each (fun session => do deliver session (← orFail (build_message (.bytes channel) (.bytes payload))))
      (ctx.hub.subscribers .channels (.bytes channel)).elems ctx k =
        (.ok (), { k with pushed := k.pushed ++ messageFrames ctx.hub channel payload }) := by
    unfold messageFrames
    rw [hframe]
    exact each_deliver frame _ ctx k
  have hpatterns : ∀ (entries : List (Value × OrdSet SessionId)), (∀ p ∈ entries, p.1.IsBytes) → ∀ (n : Nat) (k : KState F),
      Prog.fold (fun receivers p => do
        let matcher ← compile_glob p.1
        if ← matches_ matcher (.bytes channel) then
          let frame ← orFail (build_pmessage p.1 (.bytes channel) (.bytes payload))
          Prog.each (fun session => deliver session frame) p.2.elems
          return receivers + p.2.elems.length
        else return receivers) n entries ctx k =
        (.ok (n + (entries.flatMap (patternFrames glob channel payload)).length),
          { k with pushed := k.pushed ++ entries.flatMap (patternFrames glob channel payload) }) := by
    intro entries
    induction entries with
    | nil => simp
    | cons p entries ih =>
      intro hp n k
      rw [fold_cons, bind_ok ctx k (publish_pattern hglob channel payload (hp p (by simp)) n k),
        ih fun q hq => hp q (by simp [hq])]
      simp [List.append_assoc, Nat.add_assoc]
  unfold publish
  rw [bind_ok ctx k (show needHash (.bytes channel) ctx k = (.ok (), k) from rfl), bind_ok ctx k (ask_run ctx k)]
  rw [hsubs, bind_ok ctx k hchannel, hpatterns _ hpat]
  simp [fanout, messageFrames, List.append_assoc]

end Publish

end Kagni
