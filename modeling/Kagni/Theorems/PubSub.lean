import Kagni.Lemmas.Hub

/-!
# The subscription tables agree and the fan-out is exact

Who subscribes to what is kept twice, in the sets of the sessions and in the tables of the hub. Every operation changes both
alike, so `publish`, which goes by the tables of the hub, reaches exactly the sessions that hold the name.
-/

namespace Kagni

open Lib Lib.Prog

variable {F : Type}

/-- The subscriber sets of the hub are those of the connected sessions, none is empty, and every name is a byte string. -/
structure TablesAgree (gone : List SessionId) (s : Server F) : Prop where
  names_bytes : ∀ i topic, ∀ name ∈ (s.sessions i).names topic, name.IsBytes
  mem_iff : ∀ topic i name, i ∈ s.hub.subscribers topic name ↔ i ∉ gone ∧ name ∈ (s.sessions i).names topic
  noEmpty : s.hub.NoEmpty

namespace TablesAgree

variable {gone : List SessionId}

/-- Neither the names of a session nor the hub changed. -/
theorem of_same {s t : Server F} (h : TablesAgree gone s) (hn : ∀ j, (t.sessions j).names = (s.sessions j).names)
    (hh : t.hub = s.hub) :
    TablesAgree gone t where
  names_bytes i topic := by
    rw [hn]
    exact h.names_bytes i topic
  mem_iff topic i name := by
    rw [hn, hh]
    exact h.mem_iff topic i name
  noEmpty := by
    rw [hh]
    exact h.noEmpty

/-- An update of a session that changes no name. -/
theorem update {s : Server F} (h : TablesAgree gone s) (i : SessionId) {f : Session → Session}
    (hf : ∀ st, (f st).names = st.names) :
    TablesAgree gone (s.update i f) := by
  refine h.of_same (fun j => ?_) rfl
  rw [Server.update_sessions]
  split
  · rename_i hij
    rw [hij, hf]
  · rfl

theorem init (port : Nat) (table : Option (Table F)) (storage : Dict Value (Entry F)) (wired : SessionId → Bool) :
    TablesAgree [] (Server.init port table storage wired) where
  names_bytes i topic _ hname := by
    cases topic <;> exact absurd hname List.not_mem_nil
  mem_iff topic _ _ := by
    cases topic <;> simp [Server.init, Session.new, Session.names, PubSubHub.subscribers, PubSubHub.table, PubSubHub.init]
  noEmpty topic _ _ hsubs := by
    cases topic <;> cases hsubs

theorem quiet (gone : List SessionId) : Quiet fun s t : Server F => TablesAgree gone s → TablesAgree gone t where
  toIsPreorder := isPreorder_keeps _
  store _ _ h := h.of_same (fun _ => rfl) rfl
  deliver _ i frame h := h.update i fun st => deliver_names st frame
  flags _ _ h := h.of_same (fun _ => rfl) rfl

theorem names_withNames (topic topic' : Topic) (i j : SessionId) (s : Server F) (f : OrdSet Value → OrdSet Value)
    (hub : PubSubHub) :
    (({ s.update i (·.withNames f topic) with hub := hub } : Server F).sessions j).names topic' =
      if j = i ∧ topic' = topic then f ((s.sessions i).names topic) else (s.sessions j).names topic' := by
  change ((s.update i (·.withNames f topic)).sessions j).names topic' = _
  rw [Server.update_sessions]
  by_cases hj : j = i
  · subst hj
    rw [if_pos rfl, session_names_withNames, Function.update_apply]
    by_cases ht : topic' = topic
    · rw [if_pos ht, if_pos ⟨rfl, ht⟩]
    · rw [if_neg ht, if_neg fun h => ht h.2]
  · rw [if_neg hj, if_neg fun h => hj h.1]

theorem subscribe {s : Server F} (h : TablesAgree gone s) {i : SessionId} (hi : i ∉ gone) (topic : Topic) {name : Value}
    (hname : name.IsBytes) : TablesAgree gone (subscribeOne topic i name s) := by
  refine ⟨fun j topic' name' hmem => ?_, fun topic' j name' => ?_, h.noEmpty.subscribe topic i name⟩
  · unfold subscribeOne at hmem
    rw [names_withNames topic topic' i j] at hmem
    split at hmem
    · obtain rfl | hmem := (OrdSet.mem_insert ..).1 hmem
      · exact hname
      · exact h.names_bytes i topic name' hmem
    · exact h.names_bytes j topic' name' hmem
  · unfold subscribeOne
    rw [names_withNames topic topic' i j, PubSubHub.mem_subscribers_subscribe, h.mem_iff]
    split
    · rename_i hsame
      obtain ⟨rfl, rfl⟩ := hsame
      rw [OrdSet.mem_insert]
      tauto
    · tauto

theorem unsubscribe {s : Server F} (h : TablesAgree gone s) (i : SessionId) (topic : Topic) (name : Value) :
    TablesAgree gone (unsubscribeOne topic i name s) := by
  refine ⟨fun j topic' name' hmem => ?_, fun topic' j name' => ?_, h.noEmpty.unsubscribe topic i name⟩
  · unfold unsubscribeOne at hmem
    rw [names_withNames topic topic' i j] at hmem
    split at hmem
    · exact h.names_bytes i topic name' ((OrdSet.mem_erase ..).1 hmem).1
    · exact h.names_bytes j topic' name' hmem
  · unfold unsubscribeOne
    rw [names_withNames topic topic' i j, PubSubHub.mem_subscribers_unsubscribe, h.mem_iff]
    split
    · rename_i hsame
      obtain ⟨rfl, rfl⟩ := hsame
      rw [OrdSet.mem_erase]
      tauto
    · tauto

/-- A lost connection takes its session out of every table. -/
theorem lost {s : Server F} (h : TablesAgree gone s) [PyFloat F] (env : Env) (i : SessionId) :
    TablesAgree (i :: gone) (s.step env (.lost i)) := by
  have hn : ∀ j, ((s.step env (.lost i)).sessions j).names = (s.sessions j).names := by
    intro j
    change ((s.update i fun st => { st with sender := none }).sessions j).names = _
    rw [Server.update_sessions]
    split
    · rename_i hij
      rw [hij]
      rfl
    · rfl
  refine ⟨fun j topic => ?_, fun topic j name => ?_, PubSubHub.noEmpty_remove_session s.hub i⟩
  · rw [hn]
    exact h.names_bytes j topic
  · rw [hn, List.mem_cons]
    change j ∈ (s.hub.remove_session i).subscribers topic name ↔ _
    rw [PubSubHub.mem_subscribers_remove_session, h.mem_iff]
    tauto

variable [PyFloat F]

/-- A method keeps both tables alike, called with byte strings by a connected session or by none. -/
theorem runHandler (c : Cmd) {state : Option SessionId} (hstate : ∀ i, state = some i → i ∉ gone) {args : List Value}
    (hargs : ∀ arg ∈ args, arg.IsBytes) :
    Respects (fun s t => TablesAgree gone s → TablesAgree gone t) (runHandler (handler c : Handler F) state args) := by
  have hsub : ∀ topic kind, Respects (fun s t => TablesAgree gone s → TablesAgree gone t)
      (subscribeAll topic kind state args : M F _) :=
    fun topic kind => (quiet gone).calm.subscribeAll
      (fun i hi name hname s h => h.subscribe (hstate i hi) topic (hargs name hname)) kind
  have hunsub : ∀ topic kind, Respects (fun s t => TablesAgree gone s → TablesAgree gone t)
      (unsubscribeAll topic kind state args : M F _) :=
    fun topic kind => (quiet gone).calm.unsubscribeAll (fun i hi name s h => h.unsubscribe i topic name) kind args
  by_cases hc : c ∈ subscribeCommands
  · simp only [subscribeCommands, List.mem_cons, List.not_mem_nil, or_false] at hc
    rcases hc with rfl | rfl | rfl | rfl
    · exact (quiet gone).calm.runSession (hsub .channels _)
    · exact (quiet gone).calm.runSession (hunsub .channels _)
    · exact (quiet gone).calm.runSession (hsub .patterns _)
    · exact (quiet gone).calm.runSession (hunsub .patterns _)
  · refine (quiet gone).runHandler (fun h => absurd h hc) (fun _ => ?_) (fun _ => ?_) args
    · exact fun s i f _ h => h.update i fun _ => rfl
    · exact fun s => ⟨fun h => h.of_same (fun _ => rfl) rfl, fun h => h.of_same (fun _ => rfl) rfl⟩

theorem kept {state : Option SessionId} (hstate : ∀ i, state = some i → i ∉ gone) :
    Kept (fun q => ∀ arg ∈ q.args, arg.IsBytes) (TablesAgree gone : Server F → Prop) state where
  update _ i _ hf h := h.update i hf
  run {_ c} r s hq _ h := runHandler c hstate hq r s h

end TablesAgree

/-! ## The fan-out -/

theorem framesFor_append (i : SessionId) (a b : List (SessionId × Bytes)) :
    framesFor i (a ++ b) = framesFor i a ++ framesFor i b := by
  simp [framesFor]

/-- Pushed frames are delivered to each session in their order. -/
theorem push_sessions (s : Server F) (frames : List (SessionId × Bytes)) (i : SessionId) :
    (s.push frames).sessions i = (framesFor i frames).foldl Session.deliver (s.sessions i) := by
  induction frames generalizing s with
  | nil => rfl
  | cons p frames ih =>
    have hpush : s.push (p :: frames) = (s.update p.1 (·.deliver p.2)).push frames := rfl
    rw [hpush, ih, Server.update_sessions]
    by_cases hp : p.1 = i
    · subst hp
      simp [framesFor]
    · rw [if_neg fun h => hp h.symm]
      simp [framesFor, hp]

/-- One frame for each of some sessions is one for a session that is among them. -/
theorem framesFor_map {sessions : List SessionId} (h : sessions.Nodup) (frame : Bytes) (i : SessionId) :
    framesFor i (sessions.map fun j => (j, frame)) = if i ∈ sessions then [frame] else [] := by
  induction sessions with
  | nil => rfl
  | cons j sessions ih =>
    obtain ⟨hj, hn⟩ := List.nodup_cons.1 h
    rw [List.map_cons, ← List.singleton_append, framesFor_append, ih hn]
    by_cases hi : j = i
    · subst hi
      simp [framesFor, hj]
    · have hi' : ¬i = j := fun h => hi h.symm
      simp [framesFor, hi, hi']

/-- What `publish` delivers to one session: the message if it subscribes to the channel, and one frame for each matching
pattern the hub has it under. -/
theorem framesFor_fanout (hub : PubSubHub) (glob : Bytes → Bytes → Bool) (channel payload : Bytes) (i : SessionId) :
    framesFor i (fanout hub glob channel payload) =
      (if i ∈ hub.subscribers .channels (.bytes channel) then
        [(build_message (.bytes channel) (.bytes payload)).getD []] else []) ++
      (hub.patterns.entries.filter fun p => p.1.globs glob channel && decide (i ∈ p.2)).map
        fun p => (build_pmessage p.1 (.bytes channel) (.bytes payload)).getD [] := by
  have hpatterns : ∀ entries : List (Value × OrdSet SessionId),
      framesFor i (entries.flatMap (patternFrames glob channel payload)) =
        (entries.filter fun p => p.1.globs glob channel && decide (i ∈ p.2)).map
          fun p => (build_pmessage p.1 (.bytes channel) (.bytes payload)).getD [] := by
    intro entries
    induction entries with
    | nil => rfl
    | cons p entries ih =>
      rw [List.flatMap_cons, framesFor_append, ih, patternFrames]
      cases hmatch : p.1.globs glob channel with
      | false => simp [framesFor, hmatch]
      | true =>
        rw [if_pos rfl, framesFor_map p.2.nodup]
        by_cases hi : i ∈ p.2
        · rw [if_pos (show i ∈ p.2.elems from hi), List.filter_cons_of_pos (by simp [hmatch, hi])]
          rfl
        · rw [if_neg (show i ∉ p.2.elems from hi), List.filter_cons_of_neg (by simp [hi])]
          rfl
  rw [fanout, framesFor_append, hpatterns, messageFrames, framesFor_map (OrdSet.nodup _)]
  rfl

/-- The matching patterns the hub has a session under are the matching patterns the session holds. -/
theorem TablesAgree.patterns_perm {gone : List SessionId} {s : Server F} (h : TablesAgree gone s) (glob : Bytes → Bytes → Bool)
    (channel : Bytes) (i : SessionId) :
    ((s.hub.patterns.entries.filter fun p => p.1.globs glob channel && decide (i ∈ p.2)).map Prod.fst).Perm
      (if i ∈ gone then [] else (s.sessions i).patterns.elems.filter (·.globs glob channel)) := by
  have hnodup : ((s.hub.patterns.entries.filter fun p => p.1.globs glob channel && decide (i ∈ p.2)).map Prod.fst).Nodup :=
    (List.filter_sublist.map Prod.fst).nodup s.hub.patterns.nodup
  have hmem : ∀ name, name ∈ (s.hub.patterns.entries.filter fun p => p.1.globs glob channel && decide (i ∈ p.2)).map Prod.fst ↔
      name.globs glob channel = true ∧ i ∈ s.hub.subscribers .patterns name := by
    intro name
    rw [PubSubHub.mem_subscribers_iff, List.mem_map]
    constructor
    · rintro ⟨⟨name', subs⟩, hp, rfl⟩
      obtain ⟨hentry, hp⟩ := List.mem_filter.1 hp
      rw [Bool.and_eq_true, decide_eq_true_eq] at hp
      exact ⟨hp.1, subs, (Dict.get_eq_some_iff ..).2 hentry, hp.2⟩
    · rintro ⟨hmatch, subs, hget, hi⟩
      refine ⟨(name, subs), List.mem_filter.2 ⟨(Dict.get_eq_some_iff ..).1 hget, ?_⟩, rfl⟩
      rw [Bool.and_eq_true, decide_eq_true_eq]
      exact ⟨hmatch, hi⟩
  split
  · rename_i hgone
    rw [List.perm_nil, List.eq_nil_iff_forall_not_mem]
    intro name hname
    exact ((h.mem_iff ..).1 ((hmem name).1 hname).2).1 hgone
  · rename_i hgone
    refine (List.perm_ext_iff_of_nodup hnodup ((OrdSet.nodup _).filter _)).2 ?_
    intro name
    rw [hmem, h.mem_iff, List.mem_filter, and_comm]
    exact ⟨fun h => ⟨h.1.2, h.2⟩, fun h => ⟨⟨hgone, h.1⟩, h.2⟩⟩

/-- What `publish` delivers to a session, by the subscriptions of the session. -/
theorem TablesAgree.framesFor_perm {gone : List SessionId} {s : Server F} (h : TablesAgree gone s) (glob : Bytes → Bytes → Bool)
    (channel payload : Bytes) (i : SessionId) :
    ((framesFor i (fanout s.hub glob channel payload)).map some).Perm (if i ∈ gone then [] else
      (if .bytes channel ∈ (s.sessions i).channels then [build_message (.bytes channel) (.bytes payload)] else []) ++
      ((s.sessions i).patterns.elems.filter (·.globs glob channel)).map
        fun pattern => build_pmessage pattern (.bytes channel) (.bytes payload)) := by
  have hperm := h.patterns_perm glob channel i
  have hchannel : i ∈ s.hub.subscribers .channels (.bytes channel) ↔ i ∉ gone ∧ .bytes channel ∈ (s.sessions i).channels :=
    h.mem_iff .channels i (.bytes channel)
  -- a matching pattern is a byte string, so its frame exists
  have hframe : ∀ p ∈ s.hub.patterns.entries.filter fun p => p.1.globs glob channel && decide (i ∈ p.2),
      some ((build_pmessage p.1 (.bytes channel) (.bytes payload)).getD []) =
        build_pmessage p.1 (.bytes channel) (.bytes payload) := by
    rintro ⟨name, subs⟩ hp
    have hmatch := (List.mem_filter.1 hp).2
    cases name with
    | bytes pattern =>
      obtain ⟨frame, hframe⟩ := Option.ne_none_iff_exists'.1 (build_pmessage_ne_none pattern channel payload)
      rw [hframe]
      rfl
    | _ => cases hmatch
  obtain ⟨frame, hmessage⟩ := Option.ne_none_iff_exists'.1 (build_message_ne_none channel payload)
  rw [framesFor_fanout, List.map_append, List.map_map, hmessage]
  have hpatterns := hperm.map fun pattern => build_pmessage pattern (.bytes channel) (.bytes payload)
  rw [List.map_map] at hpatterns
  have hsame : ((s.hub.patterns.entries.filter fun p => p.1.globs glob channel && decide (i ∈ p.2)).map
      (some ∘ fun p => (build_pmessage p.1 (.bytes channel) (.bytes payload)).getD [])) =
      (s.hub.patterns.entries.filter fun p => p.1.globs glob channel && decide (i ∈ p.2)).map
        ((fun pattern => build_pmessage pattern (.bytes channel) (.bytes payload)) ∘ Prod.fst) := List.map_congr_left hframe
  rw [hsame]
  by_cases hgone : i ∈ gone
  · rw [if_pos hgone] at hpatterns
    rw [if_pos hgone, if_neg fun hi => (hchannel.1 hi).1 hgone]
    exact hpatterns
  · rw [if_neg hgone] at hpatterns
    rw [if_neg hgone]
    refine .append ?_ hpatterns
    by_cases hi : i ∈ s.hub.subscribers .channels (.bytes channel)
    · rw [if_pos hi, if_pos (hchannel.1 hi).2]
      exact .refl _
    · rw [if_neg hi, if_neg fun hc => hi (hchannel.2 ⟨hgone, hc⟩)]
      exact .refl _

/-! ## The confirmations -/

/-- What has an encoding is confirmed with the number of subscriptions of the moment. -/
theorem confirm_ok {name : Reply} (h : protocolBuilder name ≠ none) (i : SessionId) (kind : Bytes)
    (r : Env × Clock) (s : Server F) :
    ∃ frame, protocolBuilder (.list [.bytes kind, name, .int (s.sessions i).subscription_count]) = some frame ∧
      confirm i kind name r s = (.ok (), s.update i (·.deliver frame)) := by
  obtain ⟨frame, hframe⟩ := Option.ne_none_iff_exists'.1
    fun hn => h ((protocolBuilder_confirm_eq_none_iff kind name (s.sessions i).subscription_count).1 hn)
  refine ⟨frame, hframe, ?_⟩
  rw [confirm_eq, hframe]

/-- The loop of the subscribe family over byte strings confirms every name. -/
theorem namesLoop_confirmed {change : Value → Server F → Server F} {f : Session → Value → Session} {i : SessionId}
    (hchange : ∀ name s, (change name s).sessions i = f (s.sessions i) name) (kind : Bytes) {names : List Value}
    (hnames : ∀ name ∈ names, name.IsBytes) (r : Env × Clock) (s : Server F) :
    ∃ t, namesLoop change kind i names r s = (.ok (), t) ∧ Confirmed kind f (s.sessions i) names (t.sessions i) := by
  induction names generalizing s with
  | nil => exact ⟨s, rfl, .nil _⟩
  | cons name names ih =>
    obtain ⟨b, rfl⟩ := (Value.isBytes_iff name).1 (hnames name (by simp))
    have hb : protocolBuilder (.ofValue (.bytes b)) ≠ none := protocolBuilder_bytes_ne_none b
    obtain ⟨frame, hframe, hconfirm⟩ := confirm_ok hb i kind r (change (.bytes b) s)
    obtain ⟨t, hrun, hrest⟩ := ih (fun name h => hnames name (by simp [h])) ((change (.bytes b) s).update i (·.deliver frame))
    refine ⟨t, ?_, ?_⟩
    · unfold namesLoop
      rw [each_cons, bind_assoc, bind_ok r s (show liftK (needHash (.bytes b)) r s = (.ok (), s) from rfl), bind_assoc,
        bind_ok r s (modify_run r s _), bind_ok r _ hconfirm]
      exact hrun
    · rw [hchange] at hframe
      rw [Server.update_sessions_self, hchange] at hrest
      exact .cons hframe hrest

/-- Byte strings can be sorted. -/
theorem sorted_of_isBytes {values : List Value} (h : ∀ v ∈ values, v.IsBytes) : ∃ l, sorted values = some l ∧ l.Perm values := by
  unfold sorted
  split
  · exact ⟨values, rfl, .refl _⟩
  · have hall : values.all (fun v => (v.lt? v).isSome) ∧
        (values.all (fun v => decide v.IsBytes) ∨ values.all (fun v => decide ¬v.IsBytes)) := by
      refine ⟨List.all_eq_true.2 fun v hv => ?_, .inl (List.all_eq_true.2 fun v hv => decide_eq_true (h v hv))⟩
      obtain ⟨b, rfl⟩ := (Value.isBytes_iff v).1 (h v hv)
      rfl
    rw [if_pos hall]
    exact ⟨_, rfl, List.perm_insertionSort _ values⟩

theorem subscribeAll_confirmed (topic : Topic) (kind : Bytes) (i : SessionId) {names : List Value}
    (hnames : ∀ name ∈ names, name.IsBytes) (r : Env × Clock) (s : Server F) :
    Confirmed kind (Session.subscribe topic) (s.sessions i) names
      ((subscribeAll topic kind (some i) names r s).2.sessions i) := by
  have hchange : ∀ name (s : Server F), (subscribeOne topic i name s).sessions i = (s.sessions i).subscribe topic name :=
    fun name s => Server.update_sessions_self s i (·.withNames (·.insert name) topic)
  obtain ⟨t, hrun, hconfirmed⟩ := namesLoop_confirmed hchange kind hnames r s
  rw [subscribeAll_eq, bind_ok r s hrun]
  exact hconfirmed

/-- Without an argument every name is given up, in some order; without a name to give up one confirmation says so. -/
theorem unsubscribeAll_confirmed {gone : List SessionId} {s : Server F} (h : TablesAgree gone s) (topic : Topic) (kind : Bytes)
    (i : SessionId) {names : List Value} (hnames : ∀ name ∈ names, name.IsBytes) (r : Env × Clock) :
    ∃ wanted, (if names = [] then wanted.Perm ((s.sessions i).names topic).elems else wanted = names) ∧
      if wanted = [] then ∃ frame,
        protocolBuilder (.list [.bytes kind, .NIL, .int ((s.sessions i).channels.card + (s.sessions i).patterns.card : Nat)]) =
          some frame ∧
        (unsubscribeAll topic kind (some i) names r s).2.sessions i = (s.sessions i).deliver frame
      else Confirmed kind (Session.unsubscribe topic) (s.sessions i) wanted
        ((unsubscribeAll topic kind (some i) names r s).2.sessions i) := by
  have hchange : ∀ name (s : Server F), (unsubscribeOne topic i name s).sessions i = (s.sessions i).unsubscribe topic name :=
    fun name s => Server.update_sessions_self s i (·.withNames (·.erase name) topic)
  obtain ⟨wanted, hwanted, hbytes, hperm⟩ : ∃ wanted, wantedNames ((s.sessions i).names topic) names = some wanted ∧
      (∀ name ∈ wanted, name.IsBytes) ∧
      if names = [] then wanted.Perm ((s.sessions i).names topic).elems else wanted = names := by
    cases names with
    | nil =>
      obtain ⟨l, hl, hperm⟩ := sorted_of_isBytes (h.names_bytes i topic)
      exact ⟨l, hl, fun name hname => h.names_bytes i topic name (hperm.mem_iff.1 hname), hperm⟩
    | cons name names => exact ⟨_, rfl, hnames, rfl⟩
  refine ⟨wanted, hperm, ?_⟩
  rw [unsubscribeAll_eq, hwanted]
  dsimp only
  obtain ⟨t, hrun, hconfirmed⟩ := namesLoop_confirmed hchange kind hbytes r s
  rw [bind_ok r s hrun]
  by_cases hw : wanted = []
  · subst hw
    cases hrun
    have hnone : names = [] ∧ ((s.sessions i).names topic).elems = [] := by
      cases names with
      | nil => exact ⟨rfl, List.Perm.nil_eq hperm ▸ rfl⟩
      | cons name names => cases hperm
    obtain ⟨frame, hframe, hconfirm⟩ := confirm_ok (show protocolBuilder .NIL ≠ none from nofun) i kind r s
    rw [if_pos rfl, if_pos hnone, bind_ok r s hconfirm]
    exact ⟨frame, hframe, Server.update_sessions_self s i (·.deliver frame)⟩
  · rw [if_neg hw, if_neg]
    · exact hconfirmed
    · rintro ⟨rfl, hnone⟩
      rw [if_pos rfl, hnone] at hperm
      exact hw hperm.eq_nil

/-! ## Every run -/

section Run

variable [PyFloat F]

/-- What holds after every action: the tables agree, and only byte strings are queued. -/
def PubSub.Sound (p : PubSub F) : Prop := TablesAgree p.gone p.server ∧ p.server.Queued fun q => ∀ arg ∈ q.args, arg.IsBytes

theorem isBytes_map (args : List Bytes) : ∀ arg ∈ args.map Value.bytes, arg.IsBytes := by
  intro arg harg
  obtain ⟨b, -, rfl⟩ := List.mem_map.1 harg
  trivial

theorem PubSub.Sound.step {p : PubSub F} (h : p.Sound) (env : Env) (action : PubSubAction) : (p.step env action).Sound := by
  obtain ⟨hagree, hqueued⟩ := h
  cases action with
  | request clock state words =>
    dsimp only [PubSub.step]
    by_cases hstate : p.Connected state
    · rw [if_pos hstate]
      refine (TablesAgree.kept hstate).dispatch ?_ (env, clock) hagree hqueued
      cases words with
      | nil => trivial
      | cons command args => exact isBytes_map args
    · rw [if_neg hstate]
      exact ⟨hagree, hqueued⟩
  | call clock state command args =>
    dsimp only [PubSub.step]
    by_cases hstate : p.Connected state
    · rw [if_pos hstate]
      exact ⟨TablesAgree.runHandler command hstate (isBytes_map args) (env, clock) p.server hagree,
        queued_of_sameMode hqueued (sameMode_runHandler command state (args.map .bytes) (env, clock) p.server)⟩
    · rw [if_neg hstate]
      exact ⟨hagree, hqueued⟩
  | lost i =>
    exact ⟨hagree.lost env i, queued_update (f := fun st => { st with sender := none }) hqueued i (hqueued i)⟩

theorem PubSub.sound_run (env : Env) (port : Nat) (table : Option (Table F)) (storage : Dict Value (Entry F))
    (wired : SessionId → Bool) (actions : List PubSubAction) : (PubSub.run env port table storage wired actions).Sound := by
  have hrun : ∀ (actions : List PubSubAction) (p : PubSub F), p.Sound → (actions.foldl (PubSub.step env) p).Sound := by
    intro actions
    induction actions with
    | nil => exact fun _ h => h
    | cons action actions ih => exact fun p h => ih _ (h.step env action)
  exact hrun actions _ ⟨.init port table storage wired, queued_init _ port table storage wired⟩

/-- PUBLISH delivers the fan-out and answers its length. -/
theorem publish_fanout {gone : List SessionId} {s : Server F} (h : TablesAgree gone s) {env : Env} {glob : Bytes → Bytes → Bool}
    (hglob : ∀ pattern, env.glob pattern = some (glob pattern)) (clock : Clock) (state : Option SessionId)
    (channel payload : Bytes) :
    runHandler (handler .PUBLISH : Handler F) state [.bytes channel, .bytes payload] (env, clock) s =
      (.ok (protocolBuilder (.int (fanout s.hub glob channel payload).length)), s.push (fanout s.hub glob channel payload)) := by
  have hpat : ∀ p ∈ s.hub.patterns.entries, p.1.IsBytes := by
    intro p hp
    have hget := (Dict.get_eq_some_iff s.hub.patterns p.1 p.2).2 hp
    -- the name has a subscriber, and so is one of its names
    obtain ⟨i, hi⟩ := List.exists_mem_of_ne_nil _ (h.noEmpty .patterns p.1 p.2 hget)
    exact h.names_bytes i .patterns p.1 ((h.mem_iff .patterns i p.1).1 ((PubSubHub.mem_subscribers_iff ..).2 ⟨p.2, hget, hi⟩)).2
  have hpublish : PUBLISH [.bytes channel, .bytes payload] (env, clock) s =
      (.ok (some (.int (fanout s.hub glob channel payload).length)), s.push (fanout s.hub glob channel payload)) := by
    have hrun := @publish_run _ (s.ctx env clock) _ hglob hpat channel payload s.kstate
    unfold PUBLISH
    refine bind_ok (env, clock) s ?_
    unfold liftK
    rw [hrun]
    rfl
  change runSession (PUBLISH [.bytes channel, .bytes payload]) (env, clock) s = _
  rw [runSession_run, hpublish]
  rfl

/-- In every run the tables agree, every confirmation carries the number of subscriptions of its session, and PUBLISH delivers one
frame to each subscriber of the channel and one for each matching pattern of a session. -/
theorem pubsub_exact {env : Env} {glob : Bytes → Bytes → Bool} (hglob : ∀ pattern, env.glob pattern = some (glob pattern))
    (port : Nat) (table : Option (Table F)) (storage : Dict Value (Entry F)) (wired : SessionId → Bool)
    (actions : List PubSubAction) :
    let p := PubSub.run env port table storage wired actions
    (∀ i topic name, i ∉ p.gone → (name ∈ (p.server.sessions i).names topic ↔ i ∈ p.server.hub.subscribers topic name)) ∧
    (∀ topic name subscribers, (p.server.hub.table topic).get name = some subscribers → subscribers.elems ≠ []) ∧
    (∀ clock i (names : List Bytes), i ∉ p.gone → ∀ c topic kind,
      (c, topic, kind) ∈ [(Cmd.SUBSCRIBE, Topic.channels, bs "subscribe"), (.PSUBSCRIBE, .patterns, bs "psubscribe")] →
      Confirmed kind (Session.subscribe topic) (p.server.sessions i) (names.map .bytes)
        ((runHandler (handler c) (some i) (names.map .bytes) (env, clock) p.server).2.sessions i)) ∧
    (∀ clock i (names : List Bytes), i ∉ p.gone → ∀ c topic kind,
      (c, topic, kind) ∈ [(Cmd.UNSUBSCRIBE, Topic.channels, bs "unsubscribe"), (.PUNSUBSCRIBE, .patterns, bs "punsubscribe")] →
      let st := p.server.sessions i
      let st' := (runHandler (handler c) (some i) (names.map .bytes) (env, clock) p.server).2.sessions i
      ∃ wanted, (if names = [] then wanted.Perm (st.names topic).elems else wanted = names.map .bytes) ∧
        if wanted = [] then ∃ frame,
          protocolBuilder (.list [.bytes kind, .NIL, .int (st.channels.card + st.patterns.card : Nat)]) = some frame ∧
          st' = st.deliver frame
        else Confirmed kind (Session.unsubscribe topic) st wanted st') ∧
    ∀ clock state channel payload, ∃ frames,
      runHandler (handler .PUBLISH) state [.bytes channel, .bytes payload] (env, clock) p.server =
        (.ok (protocolBuilder (.int (frames.length : Nat))), p.server.push frames) ∧
      ∀ i, (p.server.push frames).sessions i = (framesFor i frames).foldl Session.deliver (p.server.sessions i) ∧
        ((framesFor i frames).map some).Perm (if i ∈ p.gone then [] else
          (if .bytes channel ∈ (p.server.sessions i).channels then [build_message (.bytes channel) (.bytes payload)] else []) ++
          ((p.server.sessions i).patterns.elems.filter (·.globs glob channel)).map
            fun pattern => build_pmessage pattern (.bytes channel) (.bytes payload)) := by
  obtain ⟨h, -⟩ := PubSub.sound_run env port table storage wired actions
  refine ⟨?_, h.noEmpty, ?_, ?_, ?_⟩
  · intro i topic name hi
    rw [h.mem_iff]
    exact ⟨fun hn => ⟨hi, hn⟩, And.right⟩
  · intro clock i names _ c topic kind hc
    have hrun := subscribeAll_confirmed topic kind i (isBytes_map names) (env, clock)
      (PubSub.run env port table storage wired actions).server
    rw [← runSession_state] at hrun
    simp only [List.mem_cons, List.not_mem_nil, or_false, Prod.mk.injEq] at hc
    rcases hc with ⟨rfl, rfl, rfl⟩ | ⟨rfl, rfl, rfl⟩
    · exact hrun
    · exact hrun
  · intro clock i names _ c topic kind hc
    have hrun := unsubscribeAll_confirmed h topic kind i (isBytes_map names) (env, clock)
    rw [← runSession_state] at hrun
    simp only [List.map_eq_nil_iff] at hrun
    simp only [List.mem_cons, List.not_mem_nil, or_false, Prod.mk.injEq] at hc
    rcases hc with ⟨rfl, rfl, rfl⟩ | ⟨rfl, rfl, rfl⟩
    · exact hrun
    · exact hrun
  · intro clock state channel payload
    refine ⟨_, publish_fanout h hglob clock state channel payload, fun i => ⟨push_sessions _ _ i, ?_⟩⟩
    exact h.framesFor_perm glob channel payload i

end Run

/-- A subscriber is in the table of the hub. -/
theorem pubsub_exact_news :
    let p := PubSub.run (F := Int) .plain 0 none ∅ (fun _ => true) [.request ⟨0, 0⟩ (some 1) [bs "SUBSCRIBE", bs "news"]]
    1 ∈ p.server.hub.subscribers .channels (.bytes (bs "news")) := by
  have hglob : ∀ pattern, Env.plain.glob pattern = some fun channel => decide (channel = pattern) := fun _ => rfl
  have h := pubsub_exact (F := Int) hglob 0 none ∅ (fun _ => true) [.request ⟨0, 0⟩ (some 1) [bs "SUBSCRIBE", bs "news"]]
  exact (h.1 1 .channels (.bytes (bs "news")) (by decide)).1 (by decide)

end Kagni
