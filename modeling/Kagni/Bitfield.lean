import Kagni.Commands.Bit
import Kagni.Content
import Kagni.Footprint
import Kagni.Lib.Bits

/-!
# Fields of a bitmap as numbers

What BITFIELD is for: a bitmap is a string of bits, a field of it a number of a type, and a subcommand an operation on that
number.
-/

namespace Kagni

open Lib

variable {F : Type}

namespace FieldType

variable (type : FieldType)

/-- The types that are accepted: signed ones of 1 to 64 bits, and unsigned ones of 1 to 63. -/
def Accepted : Prop := 0 < type.width ∧ type.width ≤ 64 ∧ (type.width = 64 → type.signed = true)

instance : Decidable type.Accepted := inferInstanceAs (Decidable (_ ∧ _ ∧ (_ → _)))

/-- The number in a field. -/
def read (bmap : Finset Nat) (offset : Nat) : Int := reading type.signed type.width (field bmap offset type.width)

/-- The bitmap with another number in a field. -/
def write (bmap : Finset Nat) (offset : Nat) (v : Int) : Finset Nat := setField bmap offset type.width (v % 2 ^ type.width).toNat

/-- The numbers of the type. -/
def Holds (v : Int) : Prop := least type.signed type.width ≤ v ∧ v ≤ greatest type.signed type.width

instance (v : Int) : Decidable (type.Holds v) := inferInstanceAs (Decidable (_ ∧ _))

/-- What an overflow mode makes of a number; `none` is a refusal. -/
def reduce : Overflow → Int → Option Int
  | .WRAP, v => some (wrap type.signed type.width v)
  | .SAT, v => some (clamp type.signed type.width v)
  | .FAIL, v => if type.Holds v then some v else none

end FieldType

/-- A field holds a number now, and the bits outside it are as they were. -/
structure FieldWritten (type : FieldType) (offset : Nat) (v : Int) (bmap bmap' : Finset Nat) : Prop where
  number : type.read bmap' offset = v
  others : ∀ i, ¬(offset ≤ i ∧ i < offset + type.width) → (i ∈ bmap' ↔ i ∈ bmap)

namespace Sub

/-- A subcommand by itself: the reply, and the bitmap it writes if it writes. -/
def apply (bmap : Finset Nat) : Sub → Reply × Option (Finset Nat)
  | .get type offset => (.int (type.read bmap offset), none)
  | .write incrby type offset amount overflow =>
    match type.reduce overflow (if incrby then type.read bmap offset + amount else amount) with
    | none => (.NIL, none)
    | some v => (.int (if incrby then v else type.read bmap offset), some (type.write bmap offset v))

/-- The field of a subcommand. -/
def type : Sub → FieldType
  | .get type _ => type
  | .write _ type _ _ _ => type

def offset : Sub → Nat
  | .get _ offset => offset
  | .write _ _ offset _ _ => offset

/-- The field ends within the bits of a bitmap. -/
def Fits (sub : Sub) : Prop := sub.offset + sub.type.width ≤ BITMAP_LIMIT

instance (sub : Sub) : Decidable sub.Fits := inferInstanceAs (Decidable (_ ≤ _))

/-- Subcommands one after the other, on the bitmap of a key or on none. -/
def applyAll : List Sub → Option (Finset Nat) → List Reply × Option (Finset Nat)
  | [], o => ([], o)
  | sub :: subs, o =>
    ((sub.apply (o.getD ∅)).1 :: (applyAll subs ((sub.apply (o.getD ∅)).2.or o)).1,
      (applyAll subs ((sub.apply (o.getD ∅)).2.or o)).2)

/-- Some subcommand of the list writes a number. -/
def anyWrites : List Sub → Option (Finset Nat) → Bool
  | [], _ => false
  | sub :: subs, o => (sub.apply (o.getD ∅)).2.isSome || anyWrites subs ((sub.apply (o.getD ∅)).2.or o)

end Sub

/-- The arguments of BITFIELD are parsed as these subcommands. -/
def BitfieldParses (F : Type) (ctx : Ctx) (args : List Value) (subs : List Sub) : Prop :=
  ∀ k : KState F, bitfieldSubs false .WRAP args ctx k = (.ok subs, k)

/-- The name of an overflow mode. -/
def Overflow.name : Overflow → Bytes
  | .WRAP => bs "WRAP"
  | .SAT => bs "SAT"
  | .FAIL => bs "FAIL"

/-- The amount that is written has 64 bits. -/
def Sub.Sized : Sub → Prop
  | .get _ _ => True
  | .write _ _ _ amount _ => INT64_MIN ≤ amount ∧ amount ≤ INT64_MAX

/-- The content with a bitmap under a key: one that is there is changed in place. -/
def Content.setBitmap (s : Content F) (key : Value) (b : Finset Nat) : Content F :=
  match s.value key with
  | none => s.assign key (.bitmap b)
  | some _ => s.change key (.bitmap b)

/-- When a list of subcommands can be told: a look at the key raises nothing, and the event of a write can be published. -/
def BitfieldTold {F : Type} (ctx : Ctx) (k : KState F) (key : Bytes) (subs : List Sub) (o : Option (Finset Nat)) : Prop :=
  ctx.Opens k key ∧ (Sub.anyWrites subs o = true → ctx.EventReturns .setbit)

/-- The requests for one subcommand each, under the last mode before it. -/
def bitfieldSingles (mode : List Value) : List Value → List (List Value)
  | [] => []
  | opt :: rest =>
    if opt.names (bs "OVERFLOW") then
      match rest with
      | [] => []
      | name :: rest => bitfieldSingles [opt, name] rest
    else if opt.names (bs "GET") then
      match rest with
      | type :: offset :: rest => (mode ++ [opt, type, offset]) :: bitfieldSingles mode rest
      | _ => []
    else
      match rest with
      | type :: offset :: amount :: rest => (mode ++ [opt, type, offset, amount]) :: bitfieldSingles mode rest
      | _ => []

end Kagni
