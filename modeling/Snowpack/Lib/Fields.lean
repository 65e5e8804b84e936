import Mathlib.Data.List.Perm.Basic
import Snowpack.Lib.Bytes

/-!
# Tagged fields

A record as a list of tagged values. `under fields tag` is what is stored under a tag. Fields under
other tags do not matter to it (`under_append`, `under_eq_nil`), and nor does the order as long as
the tag is used once (`under_perm`).

`encodeFields` writes such a record as bytes, with values of any length, and `parseFields` reads it
back (`parse_encode`).
-/

namespace Wire

/-! ## Lookup -/

section
variable {κ α : Type} [DecidableEq κ]

/-- The values stored under a tag, in the order of the fields. -/
def under (fields : List (κ × α)) (tag : κ) : List α :=
  fields.filterMap fun f => if f.1 = tag then some f.2 else none

theorem under_append (l m : List (κ × α)) (tag : κ) :
    under (l ++ m) tag = under l tag ++ under m tag :=
  List.filterMap_append

theorem under_eq_nil {fields : List (κ × α)} {tag : κ} (h : ∀ f ∈ fields, f.1 ≠ tag) :
    under fields tag = [] := by
  apply List.filterMap_eq_nil_iff.2
  intro f hf
  exact if_neg (h f hf)

/-- Fields in another order, for a tag that is used at most once. -/
theorem under_perm {l m : List (κ × α)} (h : l.Perm m) {tag : κ} {o : Option α}
    (hm : under m tag = o.toList) : under l tag = o.toList := by
  have hperm : (under l tag).Perm o.toList := hm ▸ h.filterMap _
  cases o with
  | none => exact hperm.eq_nil
  | some a => exact List.perm_singleton.1 hperm

end

/-! ## A byte format -/

/-- A one in front of each byte, and a zero at the end. -/
def escape : Bytes → Bytes
  | [] => [0]
  | b :: data => 1 :: b :: escape data

/-- Each field as its tag and its escaped data. -/
def encodeFields : List (UInt16 × Bytes) → Bytes
  | [] => []
  | (tag, data) :: fields => toBe tag ++ escape data ++ encodeFields fields

/-- The fields of an encoding; the first argument is the field that is being read. -/
def parseFields : Option (UInt16 × Bytes) → Bytes → Option (List (UInt16 × Bytes))
  | none, [] => some []
  | none, [_] => none
  | none, a :: b :: rest => parseFields (some (ofBe a b, [])) rest
  | some _, [] => none
  | some (tag, data), mark :: rest =>
    if mark = 0 then (parseFields none rest).map ((tag, data) :: ·)
    else
      match rest with
      | [] => none
      | b :: rest => parseFields (some (tag, data ++ [b])) rest

theorem parseFields_zero (tag : UInt16) (data rest : Bytes) :
    parseFields (some (tag, data)) (0 :: rest) =
      (parseFields none rest).map ((tag, data) :: ·) := by
  cases rest <;> simp only [parseFields, ↓reduceIte]

/-- The rest of a value is read into its field. -/
theorem parseFields_escape (tag : UInt16) (data : Bytes) (rest : Bytes) : ∀ acc : Bytes,
    parseFields (some (tag, acc)) (escape data ++ rest) =
      (parseFields none rest).map ((tag, acc ++ data) :: ·) := by
  induction data with
  | nil =>
    intro acc
    rw [List.append_nil]
    exact parseFields_zero tag acc rest
  | cons b data ih =>
    intro acc
    have hone : (1 : UInt8) ≠ 0 := by decide
    simp only [escape, List.cons_append, parseFields, hone, ↓reduceIte, ih, List.append_assoc,
      List.nil_append]

theorem parse_encode (fields : List (UInt16 × Bytes)) :
    parseFields none (encodeFields fields) = some fields := by
  induction fields with
  | nil => rfl
  | cons f fields ih =>
    obtain ⟨tag, data⟩ := f
    simp only [encodeFields, toBe, List.cons_append, List.nil_append, parseFields]
    rw [parseFields_escape, ih, ofBe_toBe]
    rfl

end Wire
