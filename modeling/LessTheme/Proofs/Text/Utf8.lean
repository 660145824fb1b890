import Mathlib.Tactic.SplitIfs
import LessTheme.Text.Utf8

/-!
# Text that is written and read

The bytes of a text are read into the characters of the text, and nothing
among them is malformed.  Texts are in the order of their bytes.
-/

namespace LessTheme
namespace Utf8

theorem toNat_tailByte (number : Nat) :
    (tailByte number).toNat = 0x80 + number % 64 := by
  unfold tailByte
  rw [UInt8.toNat_ofNat']
  omega

theorem toNat_ofNat_of_lt
    {number : Nat}
    (isByte : number < 0x100) :
    (UInt8.ofNat number).toNat = number := by
  rw [UInt8.toNat_ofNat']
  omega

/-! ## First bytes -/

theorem beginChar_two :
    ∀ lead < 0x20, 2 ≤ lead →
      beginChar (0xC0 + lead) = ([], some ⟨lead, 1, 1, 0x80, 0xBF⟩) := by
  decide

theorem beginChar_three :
    ∀ lead < 0x10,
      beginChar (0xE0 + lead) =
        ([], some ⟨lead, 1, 2, if lead = 0 then 0xA0 else 0x80,
          if lead = 0xD then 0x9F else 0xBF⟩) := by
  decide

theorem beginChar_four :
    ∀ lead < 5,
      beginChar (0xF0 + lead) =
        ([], some ⟨lead, 1, 3, if lead = 0 then 0x90 else 0x80,
          if lead = 4 then 0x8F else 0xBF⟩) := by
  decide

theorem piecesAfter_first
    {number : Nat}
    (isByte : number < 0x100)
    {begun : Begun}
    (begins : beginChar number = ([], some begun))
    (rest : Bytes) :
    piecesAfter none (.ofNat number :: rest) = piecesAfter (some begun) rest := by
  rw [piecesAfter, toNat_ofNat_of_lt isByte, step, begins]
  rfl

/-! ## Bytes inside a character -/

theorem piecesAfter_tailByte
    {bits read missing least greatest number : Nat}
    (fits : least ≤ 0x80 + number % 64 ∧ 0x80 + number % 64 ≤ greatest)
    (rest : Bytes) :
    piecesAfter (some ⟨bits, read, missing + 2, least, greatest⟩) (tailByte number :: rest) =
      piecesAfter (some ⟨bits * 64 + number % 64, read + 1, missing + 1, 0x80, 0xBF⟩) rest := by
  have isFitting : ¬(0x80 + number % 64 < least ∨ greatest < 0x80 + number % 64) := by omega
  rw [piecesAfter, toNat_tailByte, step, Begun.step]
  simp only [isFitting, if_false]
  rw [if_neg (by omega), Nat.add_sub_cancel_left]
  rfl

theorem piecesAfter_lastByte
    {bits read least greatest number : Nat}
    (fits : least ≤ 0x80 + number % 64 ∧ 0x80 + number % 64 ≤ greatest)
    (rest : Bytes) :
    piecesAfter (some ⟨bits, read, 1, least, greatest⟩) (tailByte number :: rest) =
      .char (.ofNat (bits * 64 + number % 64)) :: pieces rest := by
  have isFitting : ¬(0x80 + number % 64 < least ∨ greatest < 0x80 + number % 64) := by omega
  rw [piecesAfter, toNat_tailByte, step, Begun.step]
  simp only [isFitting, if_false]
  rw [if_pos (Nat.le_refl 1), Nat.add_sub_cancel_left]
  rfl

/-! ## Characters -/

theorem toNat_ne_surrogate (char : Char) :
    char.toNat < 0xD800 ∨ 0xE000 ≤ char.toNat ∧ char.toNat < 0x110000 := by
  have valid := char.valid
  change char.toNat < 0xD800 ∨ 0xDFFF < char.toNat ∧ char.toNat < 0x110000 at valid
  omega

theorem pieces_encodeChar_append
    (char : Char)
    (rest : Bytes) :
    pieces (encodeChar char ++ rest) = .char char :: pieces rest := by
  have range := toNat_ne_surrogate char
  have same : Char.ofNat char.toNat = char := Char.ofNat_toNat char
  unfold encodeChar
  generalize char.toNat = code at range same
  rw [← same]
  dsimp only
  unfold pieces
  split
  case isTrue =>
    rw [List.singleton_append, piecesAfter, toNat_ofNat_of_lt (by omega), step, beginChar,
      if_pos (by assumption)]
    rfl
  split
  case isTrue =>
    rw [List.cons_append, piecesAfter_first (by omega)
      (beginChar_two (code / 64) (by omega) (by omega)), List.singleton_append,
      piecesAfter_lastByte (by omega)]
    congr 3
    omega
  split
  case isTrue =>
    rw [List.cons_append, piecesAfter_first (by omega) (beginChar_three (code / 4096) (by omega)),
      List.cons_append, piecesAfter_tailByte (by split <;> split <;> omega),
      List.singleton_append, piecesAfter_lastByte (by omega)]
    congr 3
    omega
  case isFalse =>
    rw [List.cons_append, piecesAfter_first (by omega) (beginChar_four (code / 262144) (by omega)),
      List.cons_append, piecesAfter_tailByte (by split <;> split <;> omega),
      List.cons_append, piecesAfter_tailByte (by omega),
      List.singleton_append, piecesAfter_lastByte (by omega)]
    congr 3
    omega

theorem pieces_encode (text : Text) : pieces (encode text) = text.map Piece.char := by
  induction text with
  | nil => rfl
  | cons char rest inductionHypothesis =>
      unfold encode at inductionHypothesis ⊢
      rw [List.flatMap_cons, pieces_encodeChar_append, inductionHypothesis]
      rfl

theorem charsFrom_map_char
    (text : Text)
    (start : Nat) :
    charsFrom start (text.map Piece.char) = .ok text := by
  induction text generalizing start with
  | nil => rfl
  | cons char rest inductionHypothesis =>
      rw [List.map_cons, charsFrom, inductionHypothesis]
      rfl

/-- Every text is read back from its bytes. -/
theorem decode_encode (text : Text) : decode (encode text) = .ok text := by
  unfold decode
  rw [pieces_encode, charsFrom_map_char]

/-! ## The order of bytes -/

/-- Some bytes stand before others whatever follows either of them. -/
def Precedes (left right : Bytes) : Prop :=
  ∀ behindLeft behindRight, left ++ behindLeft < right ++ behindRight

theorem Precedes.append
    {left right : Bytes}
    (precedes : Precedes left right)
    (leftRest rightRest : Bytes) :
    Precedes (left ++ leftRest) (right ++ rightRest) := by
  intro behindLeft behindRight
  rw [List.append_assoc, List.append_assoc]
  exact precedes _ _

theorem precedes_ofNat
    {left right : Nat}
    (before : left < right)
    (isByte : right < 0x100)
    (leftRest rightRest : Bytes) :
    Precedes (.ofNat left :: leftRest) (.ofNat right :: rightRest) := by
  intro behindLeft behindRight
  refine List.cons_lt_cons_iff.2 (Or.inl (UInt8.lt_iff_toNat_lt.2 ?_))
  rwa [toNat_ofNat_of_lt (Nat.lt_trans before isByte), toNat_ofNat_of_lt isByte]

/-- A way of writing the numbers below a bound keeps their order. -/
def KeepsOrder (write : Nat → Bytes) (bound : Nat) : Prop :=
  ∀ left right, left < right → right < bound → Precedes (write left) (write right)

theorem keepsOrder_lead
    {lead bound : Nat}
    (isByte : lead + bound ≤ 0x100) :
    KeepsOrder (fun number => [.ofNat (lead + number)]) bound := fun _ _ before below =>
  precedes_ofNat (by omega) (by omega) [] []

/-- Six more bits in a byte of their own keep the order. -/
theorem KeepsOrder.tail
    {write : Nat → Bytes}
    {bound : Nat}
    (keeps : KeepsOrder write bound) :
    KeepsOrder (fun number => write (number / 64) ++ [tailByte number]) (bound * 64) := by
  intro left right before below
  obtain front | same : left / 64 < right / 64 ∨ left / 64 = right / 64 := by omega
  · exact (keeps _ _ front (by omega)).append _ _
  · intro behindLeft behindRight
    dsimp only
    rw [same, List.append_assoc, List.append_assoc]
    refine List.append_left_lt (List.cons_lt_cons_iff.2 (Or.inl (UInt8.lt_iff_toNat_lt.2 ?_)))
    rw [toNat_tailByte, toNat_tailByte]
    omega

theorem precedes_encodeChar
    {left right : Char}
    (before : left < right) :
    Precedes (encodeChar left) (encodeChar right) := by
  have leftRange := toNat_ne_surrogate left
  have rightRange := toNat_ne_surrogate right
  have isBefore : left.toNat < right.toNat := UInt32.lt_iff_toNat_lt.1 (Char.lt_def.1 before)
  have two := (keepsOrder_lead (show 0xC0 + 0x40 ≤ 0x100 by decide)).tail
  have three := (keepsOrder_lead (show 0xE0 + 0x20 ≤ 0x100 by decide)).tail.tail
  have four := (keepsOrder_lead (show 0xF0 + 0x10 ≤ 0x100 by decide)).tail.tail.tail
  simp only [Nat.div_div_eq_div_mul, Nat.reduceMul] at three four
  unfold encodeChar
  generalize left.toNat = leftCode at leftRange isBefore
  generalize right.toNat = rightCode at rightRange isBefore
  dsimp only
  -- Characters of different lengths differ in their first bytes.
  split_ifs <;> first
    | exact precedes_ofNat (by omega) (by omega) _ _
    | exact two _ _ isBefore (by omega)
    | exact three _ _ isBefore (by omega)
    | exact four _ _ isBefore (by omega)

theorem encodeChar_ne_nil (char : Char) : encodeChar char ≠ [] := by
  unfold encodeChar
  dsimp only
  split_ifs <;> exact List.cons_ne_nil _ _

theorem encode_lt_encode
    {left right : Text}
    (before : left < right) :
    encode left < encode right := by
  unfold encode
  induction left generalizing right with
  | nil =>
      cases right with
      | nil => exact absurd before (List.not_lt_nil _)
      | cons char rest =>
          obtain ⟨byte, bytes, written⟩ := List.exists_cons_of_ne_nil (encodeChar_ne_nil char)
          rw [List.flatMap_cons, written]
          exact List.nil_lt_cons _ _
  | cons first leftRest inductionHypothesis =>
      cases right with
      | nil => exact absurd before (List.not_lt_nil _)
      | cons second rightRest =>
          rw [List.flatMap_cons, List.flatMap_cons]
          obtain firstBefore | ⟨rfl, restBefore⟩ := List.cons_lt_cons_iff.1 before
          · exact precedes_encodeChar firstBefore _ _
          · exact List.append_left_lt (inductionHypothesis restBefore)

/-- Texts are in the order of their bytes. -/
theorem encode_lt_encode_iff
    {left right : Text} :
    encode left < encode right ↔ left < right := by
  refine ⟨fun before => ?_, encode_lt_encode⟩
  obtain isBefore | rfl | after := Std.lt_trichotomy left right
  · exact isBefore
  · exact absurd before (List.lt_irrefl _)
  · exact absurd before (List.lt_asymm (encode_lt_encode after))

end Utf8
end LessTheme
