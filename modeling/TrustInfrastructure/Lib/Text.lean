import Mathlib

/-!
# Numbers and separators in text

The services put numbers into keys, cursors and associated data as decimal digits, between separators, and
read some of them back. What such a text says is unambiguous for two reasons: digits are read back
(`ofDigitChars_toString`), and a field without a separator in it can be cut off the end of a text at the last
separator, whatever the text before it holds (`append_cons_inj`). A field that may hold separators is preceded by
its length, and is then read off by count (`eq_of_sized`).
-/

namespace TrustInfrastructure.Lib

/-! ### Digits -/

theorem toList_toString (n : Nat) : (toString n).toList = Nat.toDigits 10 n := Nat.toList_repr

theorem isDigit_of_mem_toString {n : Nat} {c : Char} (h : c ∈ (toString n).toList) : c.isDigit = true := by
  rw [toList_toString] at h
  exact Nat.isDigit_of_mem_toDigits (by decide) (by decide) h

/-- A separator that is no digit does not occur in a number. -/
theorem notMem_toString {c : Char} (hc : c.isDigit = false) (n : Nat) : c ∉ (toString n).toList := by
  intro h
  rw [isDigit_of_mem_toString h] at hc
  cases hc

theorem ofDigitChars_toString (n : Nat) : Nat.ofDigitChars 10 (toString n).toList 0 = n := by
  rw [toList_toString]
  exact Nat.ofDigitChars_toDigits (by decide) (by decide)

theorem toString_toList_injective {m n : Nat} (h : (toString m).toList = (toString n).toList) : m = n := by
  rw [← ofDigitChars_toString m, h, ofDigitChars_toString]

/-! ### Reading a number -/

/-- The digits of a number's text: what follows its `+`, if it has one. -/
def unsigned : List Char → List Char
  | '+' :: rest => rest
  | text => text

/-- Rust's `str::parse::<u64>`: an optional `+`, then decimal digits, at least one, within range. -/
def parseU64 (text : List Char) : Option Nat :=
  let digits := unsigned text
  if digits.isEmpty || !digits.all Char.isDigit then none
  else if Nat.ofDigitChars 10 digits 0 < 2 ^ 64 then some (Nat.ofDigitChars 10 digits 0)
  else none

theorem unsigned_of_isDigit {text : List Char} (h : ∀ c ∈ text, c.isDigit = true) : unsigned text = text := by
  unfold unsigned
  split
  · -- a `+` is no digit
    exact absurd (h '+' List.mem_cons_self) (by decide)
  · rfl

theorem parseU64_toString (n : Nat) : parseU64 (toString n).toList = if n < 2 ^ 64 then some n else none := by
  have hdigits : ∀ c ∈ (toString n).toList, c.isDigit = true := fun c hc => isDigit_of_mem_toString hc
  have hne : (toString n).toList.isEmpty = false := by
    rw [toList_toString]
    exact List.isEmpty_eq_false_iff.mpr Nat.toDigits_ne_nil
  rw [parseU64, unsigned_of_isDigit hdigits, ofDigitChars_toString, hne, List.all_eq_true.mpr hdigits]
  rfl

/-- Rust's `str::parse::<u32>`. -/
def parseU32 (text : List Char) : Option Nat := (parseU64 text).filter fun n => n < 2 ^ 32

/-- Rust's `{n:010}`: decimal, zeros in front up to ten digits. -/
def padded (n : Nat) : String := String.ofList (List.replicate (10 - (toString n).length) '0') ++ toString n

theorem ofDigitChars_zeros (k : Nat) (digits : List Char) :
    Nat.ofDigitChars 10 (List.replicate k '0' ++ digits) 0 = Nat.ofDigitChars 10 digits 0 := by
  induction k with
  | zero => rfl
  | succ _ ih => exact ih

theorem ofDigitChars_padded (n : Nat) : Nat.ofDigitChars 10 (padded n).toList 0 = n := by
  rw [padded, String.toList_append, String.toList_ofList, ofDigitChars_zeros, ofDigitChars_toString]

theorem padded_injective {m n : Nat} (h : padded m = padded n) : m = n := by
  rw [← ofDigitChars_padded m, h, ofDigitChars_padded]

/-! ### Cutting at a separator -/

/-- The last field of a text, when it and its like hold no separator, is read off the end. -/
theorem append_cons_inj {α : Type} {c : α} {a a' d d' : List α} (hd : c ∉ d) (hd' : c ∉ d')
    (h : a ++ c :: d = a' ++ c :: d') : a = a' ∧ d = d' := by
  rcases List.append_eq_append_iff.mp h with ⟨t, hleft, hright⟩ | ⟨t, hleft, hright⟩
  · cases t with
    | nil =>
      rw [List.append_nil] at hleft
      exact ⟨hleft.symm, (List.cons.inj hright).2⟩
    | cons _ t =>
      rw [(List.cons.inj hright).2] at hd
      exact absurd (List.mem_append_right t List.mem_cons_self) hd
  · cases t with
    | nil =>
      rw [List.append_nil] at hleft
      exact ⟨hleft, (List.cons.inj hright).2.symm⟩
    | cons _ t =>
      rw [(List.cons.inj hright).2] at hd'
      exact absurd (List.mem_append_right t List.mem_cons_self) hd'

/-- The first field, when it and its like hold no separator, is read off the front of a prefix. -/
theorem cons_prefix_inj {α : Type} {c : α} {d d' a a' : List α} (hd : c ∉ d) (hd' : c ∉ d')
    (h : d ++ c :: a <+: d' ++ c :: a') : d = d' ∧ a <+: a' := by
  induction d generalizing d' with
  | nil =>
    cases d' with
    | nil => exact ⟨rfl, (List.cons_prefix_cons.mp h).2⟩
    | cons =>
      have hx := (List.cons_prefix_cons.mp h).1
      exact absurd (hx ▸ List.mem_cons_self) hd'
  | cons _ _ ih =>
    cases d' with
    | nil =>
      have hx := (List.cons_prefix_cons.mp h).1
      exact absurd (hx ▸ List.mem_cons_self) hd
    | cons =>
      obtain ⟨hxy, hrest⟩ := List.cons_prefix_cons.mp h
      obtain ⟨hdigits, htail⟩ := ih (fun hc => hd (List.mem_cons_of_mem _ hc))
        (fun hc => hd' (List.mem_cons_of_mem _ hc)) hrest
      exact ⟨by rw [hxy, hdigits], htail⟩

/-- Of two texts of one length in bytes, the one at the front of the other is the other. -/
theorem eq_of_prefix_of_size {a b : String} (hfront : a.toList <+: b.toList)
    (hsize : a.utf8ByteSize = b.utf8ByteSize) : a = b := by
  obtain ⟨rest, hrest⟩ := hfront
  have hb : b = a ++ String.ofList rest := by
    apply String.toList_inj.mp
    rw [String.toList_append, String.toList_ofList, hrest]
  have hempty : (String.ofList rest).utf8ByteSize = 0 := by
    rw [hb, String.utf8ByteSize_append] at hsize
    omega
  rw [String.utf8ByteSize_eq_zero_iff] at hempty
  rw [hb, hempty, String.append_empty]

/-- A text after its length in bytes is read off by count, whatever it holds and whatever follows. -/
theorem eq_of_sized {a b : String} {rest rest' : List Char}
    (h : (toString a.utf8ByteSize).toList ++ ':' :: (a.toList ++ rest) <+:
      (toString b.utf8ByteSize).toList ++ ':' :: (b.toList ++ rest')) : a = b ∧ rest <+: rest' := by
  have hcolon : ∀ n : Nat, ':' ∉ (toString n).toList := notMem_toString (by decide)
  obtain ⟨hdigits, htext⟩ := cons_prefix_inj (hcolon _) (hcolon _) h
  have hsize := toString_toList_injective hdigits
  have ha : a.toList <+: b.toList ++ rest' := (List.prefix_append _ _).trans htext
  have hab : a = b := by
    rcases List.prefix_or_prefix_of_prefix ha (List.prefix_append b.toList rest') with hle | hle
    · exact eq_of_prefix_of_size hle hsize
    · exact (eq_of_prefix_of_size hle hsize.symm).symm
  subst hab
  exact ⟨rfl, (List.prefix_append_right_inj _).mp htext⟩

end TrustInfrastructure.Lib
