import Kagni.Bitfield
import Kagni.Footprints.Set

/-!
# Bitmaps obey the discipline

A bitmap holds no data, so what is asked of a bitmap command is asked of its keys.
-/

namespace Kagni

open Lib Lib.Prog

variable {F : Type} {d : Discipline} {S : Set Value} {key : Value}

/-- SETBIT writes the bitmap it looked at, or a new one. -/
theorem disciplined_SETBIT (hlook : d.permits (.look key)) (hkey : key.hashable = true → d.permits (.create key))
    (bit val : Int) :
    Disciplined d S (SETBIT key bit val : K F Reply) fun _ => True := by
  unfold SETBIT
  refine built_check fun _ => ?_
  refine built_check fun _ => ?_
  refine Teaches.andThen (?_ : Looks d S key _ fun _ => d.permits (.create key)) fun previous hold => .ite
    (fun _ => ?_) fun _ => .pure trivial
  · refine (looks_bitmap hlook).bind ?_
    intro o ho
    cases o with
    | none => exact (disciplined_setitem hkey (d.obj_bitmap _) (d.seen_insert S key)).bind fun _ h => .pure (hkey h)
    | some bmap =>
      exact (disciplined_store_value (d.obj_bitmap _) hlook (Set.mem_insert key S)).bind fun _ _ => .pure (ho bmap rfl)
  exact (disciplined_after_write hold .setbit).bind fun _ _ => .pure trivial

theorem disciplined_GETBIT (hlook : d.permits (.look key)) (bit : Int) :
    Disciplined d S (GETBIT key bit : K F Reply) fun _ => True := by
  unfold GETBIT
  refine built_check fun _ => ?_
  refine (looks_bitmap hlook).andThen ?_
  intro o _
  cases o with
  | none => exact .pure trivial
  | some bmap => exact .ite (fun _ => .pure trivial) fun _ => .raise _

/-- The result of BITOP is computed from the maps. -/
theorem computes_bitopResult (op : Bytes) (maps : List (Finset Nat)) : Computes (bitopResult op maps : K F _) fun _ => True := by
  refine .ite (fun _ => ?_) fun _ => ?_
  · split
    · exact .pure trivial
    · exact .raise _
  · split
    · exact .pure trivial
    · exact .raise _
    · exact .raise _

/-- BITOP looks at its sources and writes the destination. -/
theorem disciplined_BITOP {dest_name : Value} {keys : List Value} (hlook : ∀ key ∈ keys, d.permits (.look key))
    (hkey : dest_name.hashable = true → d.permits (.create dest_name))
    (hreplace : dest_name ∉ keys → d.permits (.replace dest_name))
    (op : Value) : Disciplined d S (BITOP op dest_name keys : K F Reply) fun _ => True := by
  refine (of_computes (computes_assert_keys keys .BITOP)).bind ?_
  intro _ _
  refine (of_computes (computes_upperArg op)).bind ?_
  intro op _
  have hmap : Teaches (Access d) S (mapM_ (fun key => do return (← _bitmap key).getD ∅) keys : K F (List (Finset Nat)))
      (fun _ => True) (S ∪ {key | key ∈ keys}) := by
    have := looks_mapM (S := S) (g := id) (Q := fun _ => True) fun key hkey S =>
      (looks_bitmap (F := F) (S := S) (hlook key hkey)).bind (R := fun _ => True) (f := fun o => pure (o.getD ∅)) fun _ _ =>
        .pure trivial
    rw [List.map_id] at this
    exact ⟨fun hf => this.andThen fun ys _ => hf ys trivial⟩
  have hseen : d.Seen (S ∪ {key | key ∈ keys}) dest_name := by
    by_cases h : dest_name ∈ keys
    · exact .inl (.inr h)
    · exact .inr (hreplace h)
  refine hmap.andThen ?_
  intro maps _
  refine (of_computes (computes_bitopResult op maps)).bind ?_
  intro result _
  refine .ite (fun _ => ?_) fun _ => disciplined_discard hseen (.pure trivial)
  refine (disciplined_setitem hkey (d.obj_bitmap _) hseen).bind ?_
  intro _ h
  exact (disciplined_after_write (hkey h) .set).bind fun _ _ => .pure trivial

theorem disciplined_BITCOUNT (hlook : d.permits (.look key)) : Disciplined d S (BITCOUNT key : K F Reply) fun _ => True :=
  (looks_bitmap hlook).andThen fun _ _ => .pure trivial

/-- BITPOS looks at its key. -/
theorem disciplined_BITPOS (hlook : d.permits (.look key)) (bit : Value) :
    Disciplined d S (BITPOS key bit : K F Reply) fun _ => True := by
  unfold BITPOS
  refine built_check fun _ => ?_
  refine (looks_bitmap hlook).andThen ?_
  intro o _
  cases o with
  | none => exact .pure trivial
  | some bmap =>
    refine .ite (fun _ => .pure trivial) ?_
    intro _
    exact .ite (fun _ => .pure trivial) fun _ => .pure trivial

/-! ## BITFIELD -/

/-- A field's type is accepted or refused. -/
theorem computes_bitfield_type (raw : Value) : Computes (_bitfield_type raw : K F _) FieldType.Accepted := by
  refine (computes_asBytes raw).bind ?_
  intro b _
  split
  · refine .ite (fun hsign => ?_) fun _ => .raise _
    refine (computes_orFail _).bind ?_
    intro width _
    refine built_check fun hrange => .pure ⟨?_, ?_, fun hwide => decide_eq_true (hsign.1.resolve_right fun hu => ?_)⟩
    · dsimp only
      omega
    · dsimp only
      omega
    · dsimp only at hwide
      exact hrange (.inr (.inr ⟨hu, by omega⟩))
  · exact .raise _

/-- A field's offset is read from its argument. -/
theorem computes_bitfield_offset (raw : Value) (width : Nat) : Computes (_bitfield_offset raw width : K F Nat) fun _ => True := by
  cases raw with
  | bytes b =>
    refine (computes_orThrow _ _).bind ?_
    intro offset _
    exact built_check fun _ => .pure trivial
  | array items => exact .raise _
  | _ => exact .raise _

/-- The subcommand is SET or INCRBY. -/
def Sub.writes : Sub → Bool
  | .get _ _ => false
  | .write .. => true

/-- One round of the parser. -/
theorem bitfieldSubs_cons (ro : Bool) (overflow : Overflow) (opt : Value) (rest : List Value) :
    (bitfieldSubs ro overflow (opt :: rest) : K F (List Sub)) = (do
      let opt ← upperArg opt
      if opt = bs "OVERFLOW" then
        match rest with
        | [] => throw_ .SYNTAX
        | mode :: rest =>
          match Overflow.ofName (← upperArg mode) with
          | none => throw_ .BITFIELD_OVERFLOW
          | some overflow => bitfieldSubs ro overflow rest
      else if opt = bs "GET" then
        match rest with
        | type :: offset :: rest =>
          let type ← _bitfield_type type
          let offset ← _bitfield_offset offset type.width
          return .get type offset :: (← bitfieldSubs ro overflow rest)
        | _ => throw_ .SYNTAX
      else if opt = bs "SET" ∨ opt = bs "INCRBY" then
        match rest with
        | type :: offset :: amount :: rest =>
          let type ← _bitfield_type type
          let offset ← _bitfield_offset offset type.width
          if ro then throw_ .BITFIELD_RO
          let amount ← orThrow .NOT_INT (toLL amount)
          return .write (opt = bs "INCRBY") type offset amount overflow :: (← bitfieldSubs ro overflow rest)
        | _ => throw_ .SYNTAX
      else throw_ .SYNTAX) := by
  delta bitfieldSubs
  rcases rest with _ | ⟨a, _ | ⟨b, _ | ⟨c, rest⟩⟩⟩ <;> rfl

/-- Under BITFIELD_RO no subcommand writes. -/
theorem computes_bitfieldSubs (ro : Bool) (overflow : Overflow) (options : List Value) :
    Computes (bitfieldSubs ro overflow options : K F _) fun subs => ∀ sub ∈ subs, (sub.writes = true → ro = false) ∧
      sub.type.Accepted := by
  intro S
  -- a subcommand takes up to four arguments, so the induction is on their number
  induction hn : options.length using Nat.strong_induction_on generalizing options overflow with
  | _ n ih =>
    cases options with
    | nil => exact .pure nofun
    | cons opt rest =>
      have hrest : ∀ overflow tail, tail.length ≤ rest.length → Built Asking S (bitfieldSubs ro overflow tail : K F _) fun subs =>
          ∀ sub ∈ subs, (sub.writes = true → ro = false) ∧ sub.type.Accepted :=
            fun overflow tail h => ih tail.length (by simp at hn; omega) overflow tail rfl
      rw [bitfieldSubs_cons]
      refine (computes_upperArg opt).bind ?_
      intro _ _
      refine .ite (fun _ => ?_) fun _ => .ite (fun _ => ?_) fun _ => .ite (fun _ => ?_) fun _ => .raise _
      · split
        · exact .raise _
        · rename_i mode tail
          refine (computes_upperArg mode).bind ?_
          intro _ _
          split
          · exact .raise _
          · exact hrest _ tail (by simp)
      · split
        · rename_i type offset tail
          refine (computes_bitfield_type type).bind ?_
          intro type htype
          refine (computes_bitfield_offset offset _).bind ?_
          intro _ _
          exact (hrest overflow tail (by simp; omega)).bind fun _ h => .pure (List.forall_mem_cons.2 ⟨⟨nofun, htype⟩, h⟩)
        · exact .raise _
      · split
        · rename_i type offset amount tail
          refine (computes_bitfield_type type).bind ?_
          intro type htype
          refine (computes_bitfield_offset offset _).bind ?_
          intro _ _
          refine built_check fun hro => ?_
          refine (computes_orThrow _ _).bind ?_
          intro _ _
          exact (hrest overflow tail (by simp; omega)).bind fun _ h => .pure
            (List.forall_mem_cons.2 ⟨⟨fun _ => eq_false_of_ne_true hro, htype⟩, h⟩)
        · exact .raise _

/-- The subcommands write the one bitmap. -/
theorem disciplined_bitfieldLoop {ro : Bool} (hlook : d.permits (.look key)) (hseen : key ∈ S) (created : Bool) {subs : List Sub}
    (hsubs : ∀ sub ∈ subs, sub.writes = true → ro = false) (bmap : Finset Nat) (out : List Reply) {wrote : Bool}
    (hwrote : wrote = true → ro = false) :
    Disciplined d S (bitfieldLoop key created subs bmap out wrote : K F _) fun r => r.2.2 = true → ro = false := by
  induction subs generalizing bmap out wrote with
  | nil => exact .pure hwrote
  | cons sub subs ih =>
    obtain ⟨hsub, hrest⟩ := List.forall_mem_cons.1 hsubs
    cases sub with
    | get type offset => exact (of_computes (computes_orFail _)).bind fun _ _ => ih hrest _ _ hwrote
    | write incrby type offset amount overflow =>
      refine (of_computes (computes_orFail _)).bind ?_
      intro bits _
      dsimp only
      split
      · exact ih hrest _ _ hwrote
      · refine .ite (fun _ => ?_) fun _ => ih hrest _ _ fun _ => hsub rfl
        refine (disciplined_store_value (d.obj_bitmap _) hlook hseen).bind ?_
        intro _ _
        exact ih hrest _ _ fun _ => hsub rfl

/-- BITFIELD creates its key only if it may write. -/
theorem disciplined_bitfield {ro : Bool} (hlook : d.permits (.look key))
    (hkey : ro = false → key.hashable = true → d.permits (.create key)) (args : List Value) :
    Disciplined d S (_bitfield key args ro : K F Reply) fun _ => True := by
  refine (of_computes (computes_bitfieldSubs ro .WRAP args)).bind ?_
  intro subs hsubs
  refine (looks_bitmap hlook).andThen ?_
  intro stored hstored
  refine (disciplined_bitfieldLoop hlook (Set.mem_insert key S) _ (fun sub h => (hsubs sub h).1) _ _ (by nofun)).bind ?_
  intro r hr
  have hend : d.permits (.create key) →
      Disciplined d (insert key S) (if r.2.2 then _after_write key .setbit >>= fun _ => pure (.list r.2.1)
        else pure (.list r.2.1) : K F Reply) fun _ => True := fun hmade =>
    .ite (fun _ => (disciplined_after_write hmade .setbit).bind fun _ _ => .pure trivial) fun _ => .pure trivial
  refine .ite (fun h => ?_) fun h => ?_
  · refine (disciplined_setitem (hkey (hr h.2)) (d.obj_bitmap _) (d.seen_insert S key)).bind ?_
    intro _ hhash
    exact hend (hkey (hr h.2) hhash)
  · cases stored with
    | some bmap => exact hend (hstored bmap rfl)
    | none =>
      have hnot : ¬r.2.2 = true := fun hw => h ⟨rfl, hw⟩
      exact .ite (fun hw => absurd hw hnot) fun _ => .pure trivial

end Kagni
