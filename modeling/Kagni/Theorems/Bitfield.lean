import Kagni.Footprints.Bit
import Kagni.Lemmas.Content
import Kagni.Lemmas.Numbers
import Mathlib.Data.List.TakeWhile

/-!
# BITFIELD computes on numbers

The loops over single bits read and write fields as numbers, and a list of subcommands runs as the same subcommands one by
one. What the parser lets through may still end past the last bit of a bitmap; then the loop raises halfway.
-/

namespace Kagni

open Lib Lib.Prog

variable {F : Type} {ctx : Ctx} {ks : Set Bytes} {s : Content F} {key : Bytes}

/-! ## The loops over bits -/

theorem extract_of_fits {offset width : Nat} (bmap : Finset Nat) (h : offset + width ≤ BITMAP_LIMIT) :
    _extract_bits bmap offset width = some (field bmap offset width) := by
  induction width with
  | zero => rfl
  | succ n ih =>
    have hprev := ih (by omega)
    unfold _extract_bits at hprev ⊢
    rw [List.range_succ, List.foldl_append, hprev]
    simp only [List.foldl_cons, List.foldl_nil, if_pos (show offset + n < BITMAP_LIMIT by omega)]
    refine congrArg some ?_
    by_cases hbit : offset + n ∈ bmap <;> simp [field, msbValue, hbit]

/-- A field that ends past the last bit cannot be read. -/
theorem extract_of_not_fits {offset width : Nat} (bmap : Finset Nat) (hwidth : 0 < width) (h : ¬offset + width ≤ BITMAP_LIMIT) :
    _extract_bits bmap offset width = none := by
  obtain ⟨n, rfl⟩ := Nat.exists_eq_succ_of_ne_zero (Nat.ne_of_gt hwidth)
  unfold _extract_bits
  rw [List.range_succ, List.foldl_append]
  simp only [List.foldl_cons, List.foldl_nil]
  split
  · rfl
  · exact if_neg (by omega)

theorem mem_storeLoop (offset n value : Nat) (bmap : Finset Nat) (i : Nat) : i ∈ storeLoop offset n value bmap ↔
    i ∈ bmap ∨ (offset ≤ i ∧ i < offset + n ∧ value.testBit (offset + n - 1 - i) = true) := by
  induction n generalizing value bmap with
  | zero =>
    unfold storeLoop
    constructor
    · exact .inl
    · rintro (h | ⟨h, h', -⟩)
      · exact h
      · omega
  | succ n ih =>
    unfold storeLoop
    split
    · rename_i hzero
      simp [hzero]
    · have htop : i ∈ (if value % 2 = 1 then insert (offset + n) bmap else bmap) ↔ i ∈ bmap ∨
          (i = offset + n ∧ value.testBit 0 = true) := by
        rw [Nat.testBit_zero, decide_eq_true_iff]
        split
        · rename_i hodd
          rw [Finset.mem_insert, or_comm, and_iff_left hodd]
        · rename_i heven
          exact (or_iff_left fun h => heven h.2).symm
      rw [ih, htop, Nat.testBit_div_two]
      constructor
      · rintro ((h | ⟨rfl, hbit⟩) | ⟨h, h', hbit⟩)
        · exact .inl h
        · exact .inr ⟨by omega, by omega, by rwa [show offset + (n + 1) - 1 - (offset + n) = 0 by omega]⟩
        · exact .inr ⟨h, by omega, by rwa [show offset + (n + 1) - 1 - i = offset + n - 1 - i + 1 by omega]⟩
      · rintro (h | ⟨h, h', hbit⟩)
        · exact .inl (.inl h)
        · by_cases hi : i = offset + n
          · exact .inl (.inr ⟨hi, by rwa [show (0 : Nat) = offset + (n + 1) - 1 - i by omega]⟩)
          · exact .inr ⟨h, by omega, by rwa [show offset + n - 1 - i + 1 = offset + (n + 1) - 1 - i by omega]⟩

/-- What the loop writes is the field. -/
theorem store_bits_eq (bmap : Finset Nat) (offset width value : Nat) :
    _store_bits bmap offset width value = setField bmap offset width value := by
  ext i
  rw [_store_bits, mem_storeLoop, mem_setField, Finset.mem_filter]
  split
  · rename_i hin
    constructor
    · rintro (⟨-, hout⟩ | ⟨-, -, hbit⟩)
      · omega
      · exact hbit
    · exact fun hbit => .inr ⟨hin.1, hin.2, hbit⟩
  · rename_i hout
    constructor
    · rintro (⟨hi, -⟩ | ⟨h, h', -⟩)
      · exact hi
      · exact absurd ⟨h, h'⟩ hout
    · exact fun hi => .inl ⟨hi, by omega⟩

theorem interpret_eq {type : FieldType} {n : Nat} (htype : 0 < type.width) (hn : n < 2 ^ type.width) :
    _interpret n type = reading type.signed type.width n := by
  rw [reading_eq htype hn]
  unfold _interpret
  refine if_congr (and_congr_right' ?_) rfl rfl
  rw [ge_iff_le, ge_iff_le, ← cast_two_pow, Int.ofNat_le]

/-- The modes bring a number into the type as they should. -/
theorem overflow_eq {type : FieldType} (htype : 0 < type.width) (mode : Overflow) (v : Int) :
    _bitfield_overflow v type mode = type.reduce mode v := by
  have hholds : type.Holds v ↔ (if type.signed = true then -2 ^ (type.width - 1) else 0) ≤ v ∧
      v ≤ (if type.signed = true then 2 ^ (type.width - 1) - 1 else 2 ^ type.width - 1) := Iff.rfl
  unfold _bitfield_overflow
  dsimp only
  simp only [← hholds]
  by_cases hv : type.Holds v
  · rw [if_pos hv]
    cases mode with
    | WRAP => exact congrArg some (wrap_of_mem htype hv.1 hv.2).symm
    | SAT =>
      refine congrArg some ?_
      unfold clamp
      rw [min_eq_left hv.2, max_eq_right hv.1]
    | FAIL => exact (if_pos hv).symm
  · rw [if_neg hv]
    cases mode with
    | WRAP => exact congrArg some (wrap_eq htype v).symm
    | SAT =>
      have hclamp : least type.signed type.width ≤ clamp type.signed type.width v ∧ _ := clamp_mem htype v
      have hle := le_trans hclamp.1 hclamp.2
      refine congrArg some ?_
      change (if v < least type.signed type.width then least type.signed type.width else greatest type.signed type.width) = _
      unfold clamp
      split
      · rename_i hlow
        rw [max_eq_left (le_trans (min_le_left ..) hlow.le)]
      · rename_i hlow
        have hhigh : greatest type.signed type.width ≤ v := by
          by_contra hnot
          exact hv ⟨not_lt.1 hlow, (not_le.1 hnot).le⟩
        rw [min_eq_right hhigh, max_eq_right hle]
    | FAIL => exact (if_neg hv).symm

/-! ## The loop over the subcommands -/

/-- The content while the loop runs: a bitmap that was there is changed in place. -/
def loopContent (s : Content F) (key : Value) (created : Bool) (bmap : Finset Nat) : Content F :=
  if created then s else s.change key (.bitmap bmap)

theorem interpret_field {type : FieldType} (htype : 0 < type.width) (bmap : Finset Nat) (offset : Nat) :
    _interpret (field bmap offset type.width) type = type.read bmap offset := interpret_eq htype (msbValue_lt _ _)

theorem steps_extract (bmap : Finset Nat) (offset width : Nat) (h : offset + width ≤ BITMAP_LIMIT) :
    Steps ctx ks s (orFail (_extract_bits bmap offset width)) (.ok (field bmap offset width)) s := by
  rw [extract_of_fits bmap h]
  exact .pure _

/-- One subcommand. -/
theorem steps_sub {sub : Sub} {subs : List Sub} {created wrote : Bool} {bmap : Finset Nat} {out : List Reply}
    (htype : sub.type.Accepted) (hfits : sub.Fits)
    {result : Except (Exc Errors) (Finset Nat × List Reply × Bool)} {s' : Content F}
    (hrest : Steps ctx ks (loopContent s (.bytes key) created ((sub.apply bmap).2.getD bmap))
      (bitfieldLoop (.bytes key) created subs ((sub.apply bmap).2.getD bmap) (out ++ [(sub.apply bmap).1])
        ((sub.apply bmap).2.isSome || wrote)) result s') :
    Steps ctx ks (loopContent s (.bytes key) created bmap) (bitfieldLoop (.bytes key) created (sub :: subs) bmap out wrote)
      result s' := by
  cases sub with
  | get type offset =>
    refine (steps_extract bmap offset type.width hfits).bind ?_
    rw [interpret_field (show 0 < type.width from htype.1)]
    exact hrest
  | write incrby type offset amount overflow =>
    refine (steps_extract bmap offset type.width hfits).bind ?_
    dsimp only
    rw [interpret_field (show 0 < type.width from htype.1), overflow_eq (show 0 < type.width from htype.1)]
    unfold Sub.apply at hrest
    dsimp only at hrest
    cases hreduce : type.reduce overflow (if incrby = true then type.read bmap offset + amount else amount) with
    | none =>
      rw [hreduce] at hrest
      exact hrest
    | some v =>
      rw [hreduce] at hrest
      dsimp only
      rw [store_bits_eq]
      cases created with
      | true => exact hrest
      | false =>
        refine (steps_store_value _ _).bind ?_
        change Steps ctx ks ((s.change _ _).change _ _) _ _ _
        rw [Content.change_change]
        exact hrest

/-- A list of subcommands whose fields fit, with what is left of the list after it. -/
theorem steps_subs {pre post : List Sub} {created wrote : Bool} {o : Option (Finset Nat)} {out : List Reply}
    (hpre : ∀ sub ∈ pre, sub.type.Accepted ∧ sub.Fits) {result : Except (Exc Errors) (Finset Nat × List Reply × Bool)}
    {s' : Content F}
    (hrest : Steps ctx ks (loopContent s (.bytes key) created ((Sub.applyAll pre o).2.getD ∅))
      (bitfieldLoop (.bytes key) created post ((Sub.applyAll pre o).2.getD ∅) (out ++ (Sub.applyAll pre o).1)
        (wrote || Sub.anyWrites pre o))
      result s') :
    Steps ctx ks (loopContent s (.bytes key) created (o.getD ∅))
      (bitfieldLoop (.bytes key) created (pre ++ post) (o.getD ∅) out wrote)
      result s' := by
  induction pre generalizing o out wrote with
  | nil => rwa [Sub.applyAll, Sub.anyWrites, List.append_nil, Bool.or_false] at hrest
  | cons sub pre ih =>
    obtain ⟨⟨htype, hfits⟩, hpre⟩ := List.forall_mem_cons.1 hpre
    have hor : (sub.apply (o.getD ∅)).2.getD (o.getD ∅) = ((sub.apply (o.getD ∅)).2.or o).getD ∅ := by
      cases (sub.apply (o.getD ∅)).2 <;> rfl
    have hwrote : (wrote || Sub.anyWrites (sub :: pre) o) =
        (((sub.apply (o.getD ∅)).2.isSome || wrote) || Sub.anyWrites pre ((sub.apply (o.getD ∅)).2.or o)) := by
      rw [Sub.anyWrites, ← Bool.or_assoc, Bool.or_comm wrote]
    rw [hwrote, Sub.applyAll, List.append_cons] at hrest
    refine steps_sub htype hfits ?_
    rw [hor]
    exact ih hpre hrest

/-! ## The command -/

/-- There is a bitmap in the end if there was one, or something was written. -/
theorem applyAll_isSome (subs : List Sub) (o : Option (Finset Nat)) :
    (Sub.applyAll subs o).2.isSome = (o.isSome || Sub.anyWrites subs o) := by
  induction subs generalizing o with
  | nil => rw [Sub.applyAll, Sub.anyWrites, Bool.or_false]
  | cons sub subs ih =>
    rw [Sub.applyAll, Sub.anyWrites, ih, Option.isSome_or, Bool.or_comm _ o.isSome, Bool.or_assoc]

/-- Without a write the bits stay. -/
theorem applyAll_of_quiet {subs : List Sub} {o : Option (Finset Nat)} (h : Sub.anyWrites subs o = false) :
    (Sub.applyAll subs o).2 = o := by
  induction subs generalizing o with
  | nil => rfl
  | cons sub subs ih =>
    rw [Sub.anyWrites, Bool.or_eq_false_iff] at h
    have hsame : (sub.apply (o.getD ∅)).2.or o = o := by
      rw [Option.isSome_eq_false_iff.1 h.1 |> Option.isNone_iff_eq_none.1, Option.none_or]
    rw [hsame] at h
    rw [Sub.applyAll, hsame]
    exact ih h.2

/-- The subcommands that are parsed have accepted types. -/
theorem BitfieldParses.accepted {args : List Value} {subs : List Sub} (h : BitfieldParses F ctx args subs) (k : KState F) :
    ∀ sub ∈ subs, sub.type.Accepted := by
  obtain ⟨out, hrun, hout⟩ := Computes.run (computes_bitfieldSubs (F := F) false .WRAP args) ctx
  have heq := (hrun k).symm.trans (h k)
  exact fun sub hsub => (hout subs (Prod.ext_iff.1 heq).1 sub hsub).2

theorem loopContent_start {o : Option (Finset Nat)} (h : s.value (.bytes key) = o.map .bitmap) :
    loopContent s (.bytes key) o.isNone (o.getD ∅) = s := by
  cases o with
  | none => rfl
  | some b => exact Content.change_value h

/-- What BITFIELD ends with: its event is published if something is written. -/
noncomputable def bitfieldOutcome (ctx : Ctx) (subs : List Sub) (o : Option (Finset Nat)) : Except (Exc Errors) Reply :=
  (if Sub.anyWrites subs o = true then ctx.emits .setbit else .ok ()).map fun _ => .list (Sub.applyAll subs o).1

theorem bitfieldOutcome_told {subs : List Sub} {o : Option (Finset Nat)}
    (h : Sub.anyWrites subs o = true → ctx.EventReturns .setbit) :
    bitfieldOutcome ctx subs o = .ok (.list (Sub.applyAll subs o).1) := by
  unfold bitfieldOutcome
  split
  · rw [ctx.emits_of_returns (h ‹_›)]
    rfl
  · rfl

theorem bitfieldOutcome_untold {subs : List Sub} {o : Option (Finset Nat)} (h : Sub.anyWrites subs o = true)
    (hevent : ¬ctx.EventReturns .setbit) :
    bitfieldOutcome ctx subs o = .error .other := by
  unfold bitfieldOutcome
  rw [if_pos h, ctx.emits_of_not hevent]
  rfl

/-- BITFIELD runs its subcommands one after the other, and stores a new bitmap if one of them writes. -/
theorem steps_BITFIELD {args : List Value} {subs : List Sub} {o : Option (Finset Nat)} (hctx : ctx.Purges ks s key)
    (hvalue : s.value (.bytes key) = o.map .bitmap) (hparse : BitfieldParses F ctx args subs)
    (hsubs : ∀ sub ∈ subs, sub.type.Accepted ∧ sub.Fits) :
    Steps ctx ks s (BITFIELD (.bytes key) args) (bitfieldOutcome ctx subs o)
      ((Sub.applyAll subs o).2.elim s (s.setBitmap (.bytes key))) := by
  refine (Steps.of_run hparse).bind ?_
  refine (steps_bitmap hctx hvalue).bind ?_
  have hrun : Steps ctx ks (loopContent s (.bytes key) o.isNone (o.getD ∅))
      (bitfieldLoop (.bytes key) o.isNone (subs ++ []) (o.getD ∅) [] false) _ _ :=
    steps_subs hsubs (.pure _)
  rw [List.append_nil, loopContent_start hvalue] at hrun
  refine hrun.bind ?_
  rw [Bool.false_or]
  have hend : ∀ s' : Content F, Steps ctx ks s'
      (if Sub.anyWrites subs o = true then _after_write (.bytes key) .setbit >>= fun _ => pure
        (Reply.list (Sub.applyAll subs o).1)
        else pure (Reply.list (Sub.applyAll subs o).1)) (bitfieldOutcome ctx subs o) s' := fun s' => by
    unfold bitfieldOutcome
    split
    · by_cases hevent : ctx.EventReturns .setbit
      · rw [ctx.emits_of_returns hevent]
        exact (steps_after_write hevent).bind (.pure _)
      · rw [ctx.emits_of_not hevent]
        exact Steps.bind_error (steps_after_write_error hevent)
    · exact .pure _
  have hsome := applyAll_isSome subs o
  cases o with
  | none =>
    rw [Option.isSome_none, Bool.false_or] at hsome
    have hnone : s.value (.bytes key) = none := hvalue
    cases hfinal : (Sub.applyAll subs none).2 with
    | none =>
      have hquiet : Sub.anyWrites subs none = false := by rw [← hsome, hfinal]; rfl
      refine .if_neg (fun hwrote => ?_) (hend s)
      rw [hquiet] at hwrote
      cases hwrote.2
    | some b =>
      have hwrote : Sub.anyWrites subs none = true := by rw [← hsome, hfinal]; rfl
      refine .if_pos ⟨rfl, hwrote⟩ ((steps_setitem key _).bind ?_)
      change Steps ctx ks (s.assign (.bytes key) (.bitmap b)) _ _ (s.setBitmap (.bytes key) b)
      have hset : s.setBitmap (.bytes key) b = s.assign (.bytes key) (.bitmap b) := by
        unfold Content.setBitmap
        rw [hnone]
      rw [hset]
      exact hend _
  | some b =>
    obtain ⟨b', hb'⟩ := Option.isSome_iff_exists.1 (hsome.trans (Bool.true_or _))
    refine .if_neg (by simp) ?_
    rw [hb']
    change Steps ctx ks (s.change _ (.bitmap b')) _ _ (s.setBitmap (.bytes key) b')
    unfold Content.setBitmap
    rw [hvalue]
    exact hend _

/-- BITFIELD raises if the purge of its key does. -/
theorem gives_BITFIELD_shut {k : KState F} {args : List Value} {subs : List Sub} (h : ¬ctx.Opens k key)
    (hparse : BitfieldParses F ctx args subs) :
    Gives (BITFIELD (.bytes key) args) ctx k (.error .other) (k.store.content ctx.clock.mono) :=
  Gives.bind_run (hparse k) (Gives.bind_error (gives_bitmap_error h) _)

/-! ## Requests -/

theorem yields_type {type : FieldType} (h : type.Accepted) :
    Yields ctx (_bitfield_type (.bytes ((if type.signed then 105 else 117) :: decimalNat type.width)) : K F FieldType) type := by
  obtain ⟨hpos, hle, hwide⟩ := h
  have hint : pyInt (decimalNat type.width) = some (type.width : Int) :=
    pyInt_decimalNat (lt_of_le_of_lt hle
      (lt_of_lt_of_le (by decide : 64 < 10 ^ 2) (Nat.pow_le_pow_right (by decide) (by decide))))
  have hsyntax : ((if type.signed then 105 else 117 : UInt8) = 105 ∨ (if type.signed then 105 else 117 : UInt8) = 117) ∧
      decimalNat type.width ≠ [] ∧ (decimalNat type.width).all isDigit = true := by
    refine ⟨?_, decimalNat_ne_nil _, List.all_eq_true.2 fun c hc => isDigit_of_mem_decimalNat hc⟩
    cases type.signed with
    | true => exact .inl rfl
    | false => exact .inr rfl
  have hrange : ¬((type.width : Int) < 1 ∨ (type.width : Int) > 64 ∨ (if type.signed then 105 else 117 : UInt8) = 117 ∧
      (type.width : Int) = 64) := by
    rintro (hlow | hhigh | ⟨hunsigned, h64⟩)
    · omega
    · omega
    · rw [if_pos (hwide (by omega))] at hunsigned
      exact absurd hunsigned (by decide)
  refine (Yields.pure _).bind ?_
  dsimp only
  rw [if_pos hsyntax, hint]
  refine (Yields.pure (type.width : Int)).bind ?_
  rw [if_neg hrange]
  have htype : (⟨(if type.signed then 105 else 117 : UInt8) = 105, (type.width : Int).toNat⟩ : FieldType) = type := by
    obtain ⟨signed, width⟩ := type
    cases signed with
    | true => rfl
    | false => rfl
  rw [htype]
  exact .pure type

theorem yields_offset {offset : Nat} (h : offset < 2 ^ 32) (width : Nat) :
    Yields ctx (_bitfield_offset (.bytes (decimal offset)) width : K F Nat) offset := by
  have hplain : (decimal (offset : Int)).head? ≠ some 35 := by
    intro hm
    rw [decimal, if_neg (by omega)] at hm
    exact absurd (isDigit_of_mem_decimalNat (List.mem_of_mem_head? hm)) (by decide)
  have hint := string2ll_decimal (n := offset) (by unfold INT64_MIN INT64_MAX; omega)
  unfold _bitfield_offset
  simp only [hplain, if_false, hint]
  refine (Yields.pure (offset : Int)).bind ?_
  rw [if_neg (by omega)]
  exact .pure offset

/-- Every field of an accepted type, offset and amount can be asked for under every mode. -/
theorem exists_request {sub : Sub} (htype : sub.type.Accepted) (hoffset : sub.offset < 2 ^ 32) (hsized : sub.Sized) :
    ∃ args, BitfieldParses F ctx args [sub] := by
  cases sub with
  | get type offset =>
    refine ⟨[.bytes (bs "GET"), .bytes ((if type.signed then 105 else 117) :: decimalNat type.width),
      .bytes (decimal offset)], ?_⟩
    change Yields ctx (bitfieldSubs false .WRAP _ : K F (List Sub)) _
    rw [bitfieldSubs_cons]
    exact (Yields.pure _).bind ((yields_type htype).bind ((yields_offset hoffset _).bind ((Yields.pure []).bind (.pure _))))
  | write incrby type offset amount overflow =>
    refine ⟨[.bytes (bs "OVERFLOW"), .bytes overflow.name, .bytes (if incrby then bs "INCRBY" else bs "SET"),
      .bytes ((if type.signed then 105 else 117) :: decimalNat type.width), .bytes (decimal offset), .bytes (decimal amount)], ?_⟩
    have hmode : Overflow.ofName (upper overflow.name) = some overflow := by
      cases overflow with
      | _ => rfl
    have hamount : (orThrow .NOT_INT (toLL (.bytes (decimal amount))) : K F Int) = pure amount := by
      rw [toLL, string2ll_decimal hsized]
      rfl
    have hwrite : Yields ctx (bitfieldSubs false overflow [.bytes (if incrby then bs "INCRBY" else bs "SET"),
        .bytes ((if type.signed then 105 else 117) :: decimalNat type.width), .bytes (decimal offset),
          .bytes (decimal amount)] : K F (List Sub))
        [.write incrby type offset amount overflow] := by
      rw [bitfieldSubs_cons]
      cases incrby with
      | true =>
        refine (Yields.pure _).bind ((yields_type htype).bind ((yields_offset hoffset _).bind ?_))
        exact (hamount ▸ Yields.pure amount).bind ((Yields.pure []).bind (.pure _))
      | false =>
        refine (Yields.pure _).bind ((yields_type htype).bind ((yields_offset hoffset _).bind ?_))
        exact (hamount ▸ Yields.pure amount).bind ((Yields.pure []).bind (.pure _))
    change Yields ctx (bitfieldSubs false .WRAP _ : K F (List Sub)) _
    rw [bitfieldSubs_cons]
    refine (Yields.pure _).bind ((Yields.pure (upper overflow.name)).bind ?_)
    rw [hmode]
    exact hwrite

/-! ## One by one -/

/-- A request for one subcommand under a mode is parsed as it is in a list. -/
theorem singles_parse {args : List Value} {overflow : Overflow} {mode : List Value} {subs : List Sub}
    (hmode : ∀ tail, (bitfieldSubs false .WRAP (mode ++ tail) : K F (List Sub)) ctx =
      (bitfieldSubs false overflow tail : K F (List Sub)) ctx)
    (h : Yields ctx (bitfieldSubs false overflow args : K F (List Sub)) subs) :
    List.Forall₂ (fun single sub => BitfieldParses F ctx single [sub]) (bitfieldSingles mode args) subs := by
  induction hn : args.length using Nat.strong_induction_on generalizing args overflow mode subs with
  | _ n ih =>
    cases args with
    | nil =>
      cases congrArg Prod.fst (h ⟨⟨∅, ∅⟩, [], 0⟩)
      exact .nil
    | cons opt rest =>
      rw [bitfieldSubs_cons] at h
      obtain ⟨name, hnames, hname, h⟩ := Yields.of_bind (computes_upperArg opt) h
      have hsingle : ∀ toks sub, Yields ctx (bitfieldSubs false overflow (opt :: toks) : K F (List Sub)) [sub] →
          BitfieldParses F ctx (mode ++ opt :: toks) [sub] := fun toks sub hsub k => by
        rw [hmode]
        exact hsub k
      unfold bitfieldSingles
      by_cases hover : name = bs "OVERFLOW"
      · rw [if_pos hover] at h
        rw [if_pos ((hnames _).1 hover)]
        rcases rest with _ | ⟨modeName, rest⟩
        · exact absurd h Yields.not_raise
        · obtain ⟨m, -, hm, h⟩ := Yields.of_bind (computes_upperArg modeName) h
          cases hmodeName : Overflow.ofName m with
          | none =>
            rw [hmodeName] at h
            exact absurd h Yields.not_raise
          | some next =>
            rw [hmodeName] at h
            refine ih rest.length (by simp at hn; omega) (fun tail => ?_) h rfl
            funext k
            change (bitfieldSubs false .WRAP (opt :: modeName :: tail) : K F (List Sub)) ctx k = _
            rw [bitfieldSubs_cons, bind_ok ctx k (hname k), if_pos hover]
            dsimp only
            rw [bind_ok ctx k (hm k), hmodeName]
      · rw [if_neg hover] at h
        rw [if_neg (fun hn => hover ((hnames _).2 hn))]
        by_cases hget : name = bs "GET"
        · rw [if_pos hget] at h
          rw [if_pos ((hnames _).1 hget)]
          rcases rest with _ | ⟨type, _ | ⟨offset, rest⟩⟩
          · exact absurd h Yields.not_raise
          · exact absurd h Yields.not_raise
          · obtain ⟨t, -, ht, h⟩ := Yields.of_bind (computes_bitfield_type type) h
            obtain ⟨off, -, hoff, h⟩ := Yields.of_bind (computes_bitfield_offset offset t.width) h
            obtain ⟨later, -, hlater, h⟩ := Yields.of_bind (computes_bitfieldSubs false overflow rest) h
            rw [h.eq (.pure _)]
            refine .cons (hsingle _ _ ?_) (ih rest.length (by simp at hn; omega) hmode hlater rfl)
            rw [bitfieldSubs_cons]
            refine hname.bind ?_
            rw [if_neg hover, if_pos hget]
            exact ht.bind (hoff.bind ((Yields.pure []).bind (.pure _)))
        · rw [if_neg hget] at h
          rw [if_neg (fun hn => hget ((hnames _).2 hn))]
          by_cases hwrite : name = bs "SET" ∨ name = bs "INCRBY"
          · rw [if_pos hwrite] at h
            rcases rest with _ | ⟨type, _ | ⟨offset, _ | ⟨amount, rest⟩⟩⟩
            · exact absurd h Yields.not_raise
            · exact absurd h Yields.not_raise
            · exact absurd h Yields.not_raise
            · obtain ⟨t, -, ht, h⟩ := Yields.of_bind (computes_bitfield_type type) h
              obtain ⟨off, -, hoff, h⟩ := Yields.of_bind (computes_bitfield_offset offset t.width) h
              obtain ⟨n, -, hamount, h⟩ := Yields.of_bind (computes_orThrow .NOT_INT (toLL amount)) h
              obtain ⟨later, -, hlater, h⟩ := Yields.of_bind (computes_bitfieldSubs false overflow rest) h
              rw [h.eq (.pure _)]
              refine .cons (hsingle _ _ ?_) (ih rest.length (by simp at hn; omega) hmode hlater rfl)
              rw [bitfieldSubs_cons]
              refine hname.bind ?_
              rw [if_neg hover, if_neg hget, if_pos hwrite]
              exact ht.bind (hoff.bind (hamount.bind ((Yields.pure []).bind (.pure _))))
          · rw [if_neg hwrite] at h
            exact absurd h Yields.not_raise

theorem setBitmap_eq (s : Content F) (key : Value) (b : Finset Nat) : s.setBitmap key b = s.write key (.bitmap b) := by
  unfold Content.setBitmap
  cases h : s.value key with
  | none => rw [Content.write_of_none h]
  | some v => rw [Content.write_of_some h]

theorem value_setBitmap (s : Content F) (key : Value) (b : Finset Nat) : (s.setBitmap key b).value key = some (.bitmap b) := by
  rw [setBitmap_eq]
  exact Content.value_write s key nofun

theorem setBitmap_setBitmap (s : Content F) (key : Value) (b b' : Finset Nat) :
    (s.setBitmap key b).setBitmap key b' = s.setBitmap key b' := by
  rw [setBitmap_eq, setBitmap_eq, setBitmap_eq]
  exact Content.write_write s key (v := .bitmap b) nofun _

/-- The same subcommands in a request each. -/
theorem steps_singles {singles : List (List Value)} {subs : List Sub} {o : Option (Finset Nat)} (hctx : key ∈ ks)
    (htold : Sub.anyWrites subs o = true → ctx.EventReturns .setbit)
    (hparse : List.Forall₂ (fun single sub => BitfieldParses F ctx single [sub]) singles subs)
    (hsubs : ∀ sub ∈ subs, sub.type.Accepted ∧ sub.Fits)
    (hvalue : s.value (.bytes key) = o.map .bitmap) :
    Steps ctx ks s (mapM_ (BITFIELD (.bytes key)) singles) (.ok ((Sub.applyAll subs o).1.map fun reply => Reply.list [reply]))
      ((Sub.applyAll subs o).2.elim s (s.setBitmap (.bytes key))) := by
  induction hparse generalizing s o with
  | nil =>
    have hstart : o.elim s (s.setBitmap (.bytes key)) = s := by
      cases o with
      | none => rfl
      | some b =>
        change s.setBitmap (.bytes key) b = s
        unfold Content.setBitmap
        rw [hvalue]
        exact Content.change_value hvalue
    change Steps ctx ks s _ _ (o.elim s _)
    rw [hstart]
    exact .pure []
  | @cons single sub singles subs hfirst hrest ih =>
    obtain ⟨hsub, hsubs⟩ := List.forall_mem_cons.1 hsubs
    have hone : Sub.anyWrites [sub] o = true → ctx.EventReturns .setbit := fun hwrites => htold <| by
      rw [Sub.anyWrites, Sub.anyWrites, Bool.or_false] at hwrites
      rw [Sub.anyWrites, hwrites, Bool.true_or]
    have hlater : Sub.anyWrites subs ((sub.apply (o.getD ∅)).2.or o) = true → ctx.EventReturns .setbit :=
      fun hwrites => htold <| by
      rw [Sub.anyWrites, hwrites, Bool.or_true]
    have hstep := steps_BITFIELD (purges_of_mem hctx) hvalue hfirst (List.forall_mem_singleton.2 hsub)
    rw [bitfieldOutcome_told hone] at hstep
    refine hstep.bind ?_
    have hall : Sub.applyAll (sub :: subs) o = ((sub.apply (o.getD ∅)).1 :: (Sub.applyAll subs ((sub.apply (o.getD ∅)).2.or o)).1,
        (Sub.applyAll subs ((sub.apply (o.getD ∅)).2.or o)).2) := rfl
    rw [hall]
    change Steps ctx ks (((sub.apply (o.getD ∅)).2.or o).elim s (s.setBitmap (.bytes key))) _ _ _
    cases ho : (sub.apply (o.getD ∅)).2.or o with
    | none =>
      have hvalue₁ : s.value (.bytes key) = (none : Option (Finset Nat)).map .bitmap := by
        rw [hvalue, (Option.or_eq_none_iff.1 ho).2]
      rw [ho] at hlater
      exact (ih hlater hsubs hvalue₁).bind (.pure _)
    | some b =>
      have hvalue₁ : (s.setBitmap (.bytes key) b).value (.bytes key) = (some b).map .bitmap := value_setBitmap s (.bytes key) b
      rw [ho] at hlater
      have hsteps := ih hlater hsubs hvalue₁
      obtain ⟨b', hb'⟩ := Option.isSome_iff_exists.1 ((applyAll_isSome subs (some b)).trans (Bool.true_or _))
      rw [hb', Option.elim_some, setBitmap_setBitmap] at hsteps
      rw [hb']
      exact hsteps.bind (.pure _)

/-! ## The numbers -/

theorem fieldWritten_write {type : FieldType} {v : Int} (htype : 0 < type.width) (hv : type.Holds v) (offset : Nat)
    (bmap : Finset Nat) :
    FieldWritten type offset v bmap (type.write bmap offset v) :=
  ⟨(reading_setField bmap offset v).trans (wrap_of_mem htype hv.1 hv.2), fun _ h => mem_setField_of_outside h⟩

/-- What a mode lets through is a number of the type. -/
theorem holds_of_reduce {type : FieldType} {mode : Overflow} {v w : Int} (htype : 0 < type.width)
    (h : type.reduce mode v = some w) : type.Holds w := by
  cases mode with
  | WRAP =>
    cases h
    exact wrap_mem htype v
  | SAT =>
    cases h
    exact clamp_mem htype v
  | FAIL =>
    obtain ⟨hv, hw⟩ := Option.ite_none_right_eq_some.1 h
    cases hw
    exact hv

/-- What a write does: the number a mode lets through is in the field, and the reply is the old one of SET and the new one of
INCRBY; what a mode refuses is answered with nil and changes nothing. -/
def Sub.WriteDone (bmap : Finset Nat) : Sub → Prop
  | .get type offset => Sub.apply bmap (.get type offset) = (.int (type.read bmap offset), none)
  | .write incrby type offset amount overflow =>
    (∀ w, type.reduce overflow (if incrby then type.read bmap offset + amount else amount) = some w →
      ∃ bmap', Sub.apply bmap (.write incrby type offset amount overflow) =
        (.int (if incrby then w else type.read bmap offset), some bmap') ∧
        FieldWritten type offset w bmap bmap') ∧
    (type.reduce overflow (if incrby then type.read bmap offset + amount else amount) = none →
      Sub.apply bmap (.write incrby type offset amount overflow) = (.NIL, none))

theorem writeDone {sub : Sub} (h : sub.type.Accepted) (bmap : Finset Nat) : sub.WriteDone bmap := by
  cases sub with
  | get type offset => rfl
  | write incrby type offset amount overflow =>
    refine ⟨fun w hw => ?_, fun hnone => ?_⟩
    · refine ⟨type.write bmap offset w, ?_, fieldWritten_write h.1 (holds_of_reduce h.1 hw) offset bmap⟩
      unfold Sub.apply
      dsimp only
      rw [hw]
    · unfold Sub.apply
      dsimp only
      rw [hnone]

/-- An empty store. -/
def nothingStored : KState Int := ⟨⟨∅, ∅⟩, [], 0⟩

/-- `BITFIELD k OVERFLOW SAT SET u8 0 300 GET i8 0`, and what it is parsed as. -/
def clampedSet : List Value :=
  ["OVERFLOW", "SAT", "SET", "u8", "0", "300", "GET", "i8", "0"].map fun name => .bytes (bs name)

def clampedSetSubs : List Sub := [.write false ⟨false, 8⟩ 0 300 .SAT, .get ⟨true, 8⟩ 0]

/-- When an error leaves the bits alone: every field fits and the event can be published, so that there is no error, or what
is written before the first field that does not fit is what was there. -/
def BitsKept (ctx : Ctx) (b : Finset Nat) (subs : List Sub) : Prop :=
  ((∀ sub ∈ subs, sub.Fits) ∧ ctx.EventReturns .setbit) ∨ (Sub.applyAll (subs.takeWhile fun sub => sub.Fits) (some b)).2 = some b

/-- A field that does not fit ends the loop, with what was written before it. -/
theorem steps_BITFIELD_error {args : List Value} {pre post : List Sub} {sub : Sub} {b : Finset Nat}
    (hvalue : s.value (.bytes key) = some (.bitmap b))
    (hparse : BitfieldParses F ctx args (pre ++ sub :: post)) (hpre : ∀ sub ∈ pre, sub.type.Accepted ∧ sub.Fits)
    (hsub : sub.type.Accepted)
    (hlast : ¬sub.Fits) :
    Steps ctx ks s (BITFIELD (.bytes key) args) (.error .other)
      (s.change (.bytes key) (.bitmap ((Sub.applyAll pre (some b)).2.getD ∅))) := by
  refine (Steps.of_run hparse).bind ?_
  refine (steps_bitmap (o := some b) (purges_of_value hvalue) hvalue).bind (.bind_error ?_)
  have hraise : ∀ (s' : Content F) bmap out wrote,
      Steps ctx ks s' (bitfieldLoop (.bytes key) false (sub :: post) bmap out wrote) (.error .other) s' := by
    intro s' bmap out wrote
    have hnone := extract_of_not_fits bmap hsub.1 hlast
    cases sub with
    | get type offset =>
      refine .bind_error ?_
      rw [show _extract_bits bmap offset type.width = none from hnone]
      exact .raise _
    | write incrby type offset amount overflow =>
      refine .bind_error ?_
      rw [show _extract_bits bmap offset type.width = none from hnone]
      exact .raise _
  have hrun : Steps ctx ks (loopContent s (.bytes key) false ((some b).getD ∅))
      (bitfieldLoop (.bytes key) false (pre ++ sub :: post) ((some b).getD ∅) [] false) _ _ := steps_subs hpre (hraise _ _ _ _)
  rw [show loopContent s (.bytes key) false ((some b).getD ∅) = s from Content.change_value hvalue] at hrun
  exact hrun

/-- The bits that a list writes on a bitmap. -/
theorem exists_applyAll (subs : List Sub) (b : Finset Nat) : ∃ b', (Sub.applyAll subs (some b)).2 = some b' :=
  Option.isSome_iff_exists.1 ((applyAll_isSome subs (some b)).trans (Bool.true_or _))

section Atomic

variable {k : KState F} {args : List Value} {subs : List Sub} {b : Finset Nat}

/-- An error leaves the bits alone. -/
def KeepsBits (ctx : Ctx) (k : KState F) (key : Bytes) (args : List Value) (b : Finset Nat) : Prop :=
  ∀ e, (BITFIELD (.bytes key) args ctx k).1 = .error e →
    ((BITFIELD (.bytes key) args ctx k).2.store.content ctx.clock.mono).value (.bytes key) = some (.bitmap b)

/-- Where every field fits, only the event can fail, and it comes after all writes. -/
theorem keepsBits_of_fits (hvalue : (k.store.content ctx.clock.mono).value (.bytes key) = some (.bitmap b))
    (hparse : BitfieldParses F ctx args subs) (hfits : ∀ sub ∈ subs, sub.Fits) :
    KeepsBits ctx k key args b ↔ BitsKept ctx b subs := by
  have hall : (subs.takeWhile fun sub => decide sub.Fits) = subs :=
    List.takeWhile_eq_self_iff.2 fun sub hsub => decide_eq_true (hfits sub hsub)
  obtain ⟨b', hb'⟩ := exists_applyAll subs b
  have hstep : Steps ctx ∅ _ (BITFIELD (.bytes key) args) _ _ :=
    steps_BITFIELD (o := some b) (purges_of_value hvalue) hvalue hparse
      fun sub hsub => ⟨hparse.accepted k sub hsub, hfits sub hsub⟩
  obtain ⟨k', hrun, hk'⟩ := hstep k (.none k)
  have hbits : (k'.store.content ctx.clock.mono).value (.bytes key) = some (.bitmap b') := by
    rw [hk'.content, hb']
    exact value_setBitmap _ _ _
  unfold KeepsBits BitsKept
  rw [hrun, hall, hb', and_iff_right hfits]
  dsimp only
  rw [hbits]
  by_cases hwrites : Sub.anyWrites subs (some b) = true
  · by_cases hevent : ctx.EventReturns .setbit
    · rw [bitfieldOutcome_told fun _ => hevent]
      exact ⟨fun _ => .inl hevent, fun _ e he => (nomatch he)⟩
    · rw [bitfieldOutcome_untold hwrites hevent, or_iff_right hevent]
      constructor
      · intro h
        cases h .other rfl
        rfl
      · intro h e _
        cases h
        rfl
  · rw [bitfieldOutcome_told fun hw => absurd hw hwrites]
    rw [applyAll_of_quiet (Bool.not_eq_true _ ▸ hwrites)] at hb'
    exact ⟨fun _ => .inr hb'.symm, fun _ e he => (nomatch he)⟩

/-- Where a field does not fit, the writes before it stay. -/
theorem keepsBits_of_not_fits (hvalue : (k.store.content ctx.clock.mono).value (.bytes key) = some (.bitmap b))
    (hparse : BitfieldParses F ctx args subs) (hfits : ¬∀ sub ∈ subs, sub.Fits) :
    KeepsBits ctx k key args b ↔ BitsKept ctx b subs := by
  have htypes := hparse.accepted k
  have hsplit := List.takeWhile_append_dropWhile (p := fun sub : Sub => decide sub.Fits) (l := subs)
  have hpre : ∀ sub ∈ subs.takeWhile fun sub => sub.Fits, sub.type.Accepted ∧ sub.Fits := fun sub hsub =>
    ⟨htypes sub (List.takeWhile_subset _ hsub),
      of_decide_eq_true (List.mem_takeWhile_imp (p := fun sub : Sub => decide sub.Fits) hsub)⟩
  cases hdrop : subs.dropWhile fun sub => decide sub.Fits with
  | nil => exact absurd (fun sub hsub => of_decide_eq_true (List.dropWhile_eq_nil_iff.1 hdrop sub hsub)) hfits
  | cons sub post =>
    have hlast : ¬sub.Fits := by
      have hhead := List.head?_dropWhile_not (fun sub : Sub => decide sub.Fits) subs
      rw [hdrop] at hhead
      simpa using hhead
    rw [hdrop] at hsplit
    obtain ⟨b', hb'⟩ := exists_applyAll (subs.takeWhile fun sub => decide sub.Fits) b
    have hstep : Steps ctx ∅ _ (BITFIELD (.bytes key) args) _ _ :=
      steps_BITFIELD_error hvalue (hsplit.symm ▸ hparse) hpre (htypes sub (hsplit ▸ by simp)) hlast
    obtain ⟨k', herror, hk'⟩ := hstep k (.none k)
    unfold KeepsBits BitsKept
    rw [herror, hk'.content, hb', Option.getD_some, Content.value_change hvalue (.bitmap b') nofun,
      or_iff_right fun h => hfits h.1]
    constructor
    · intro h
      have hbits := h .other rfl
      cases hbits
      rfl
    · intro h e he
      cases h
      rfl

end Atomic

/-- A bitmap `k` with its first bit. -/
def oneBit : KState Int := ⟨⟨Dict.set ∅ (.bytes (bs "k")) ⟨.bitmap {0}, none⟩, ∅⟩, [], 0⟩

/-- `BITFIELD k SET u8 0 255 GET u8 4294967295`: the last field ends past the last bit. -/
def setAndFail : List Value := ["SET", "u8", "0", "255", "GET", "u8", "4294967295"].map fun name => .bytes (bs name)

end Kagni
