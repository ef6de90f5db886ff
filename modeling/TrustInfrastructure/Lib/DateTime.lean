import TrustInfrastructure.Lib.Text

/-!
# Instants with nanoseconds and leap seconds

The values of a `chrono::DateTime<Utc>`: whole seconds since the epoch and a nanosecond part, which reaches
past a second only inside a leap second, at the end of a minute. What else is used of that crate is left to a
`Calendar`: a day later and a day earlier, and the two renderings on the wire with the reading. Its laws
(`Calendar.Lawful`) are what chrono's arithmetic and RFC 3339 can and cannot do. Adding a day leaves a leap
second, so a day later and a day earlier are inverses, up to order, outside leap seconds only; and an instant
of the years 0000 to 9999 is read back, to the second or whole, and no other.
-/

namespace TrustInfrastructure.Lib

/-- An instant: seconds since the epoch, and nanoseconds, up to two seconds' worth inside a leap second. -/
structure DateTime where
  seconds : Int
  nanos : Nat
  valid : nanos < 10 ^ 9 ∨ nanos < 2 * 10 ^ 9 ∧ seconds % 60 = 59
  deriving DecidableEq

namespace DateTime

instance : LE DateTime := ⟨fun a b => a.seconds < b.seconds ∨ a.seconds = b.seconds ∧ a.nanos ≤ b.nanos⟩

theorem le_def {a b : DateTime} : a ≤ b ↔ a.seconds < b.seconds ∨ a.seconds = b.seconds ∧ a.nanos ≤ b.nanos :=
  Iff.rfl

instance : DecidableLE DateTime := fun a b =>
  inferInstanceAs (Decidable (a.seconds < b.seconds ∨ a.seconds = b.seconds ∧ a.nanos ≤ b.nanos))

instance : LT DateTime := ⟨fun a b => a.seconds < b.seconds ∨ a.seconds = b.seconds ∧ a.nanos < b.nanos⟩

instance : DecidableLT DateTime := fun a b =>
  inferInstanceAs (Decidable (a.seconds < b.seconds ∨ a.seconds = b.seconds ∧ a.nanos < b.nanos))

theorem le_trans {a b c : DateTime} (hab : a ≤ b) (hbc : b ≤ c) : a ≤ c := by
  rw [le_def] at hab hbc ⊢
  omega

theorem le_of_lt {a b : DateTime} (h : a < b) : a ≤ b := by
  change a.seconds < b.seconds ∨ a.seconds = b.seconds ∧ a.nanos < b.nanos at h
  rw [le_def]
  omega

theorem le_of_not_lt {a b : DateTime} (h : ¬ a < b) : b ≤ a := by
  change ¬ (a.seconds < b.seconds ∨ a.seconds = b.seconds ∧ a.nanos < b.nanos) at h
  rw [le_def]
  omega

/-- The instant falls on a whole second. -/
def IsWhole (t : DateTime) : Prop := t.nanos % 10 ^ 9 = 0

instance (t : DateTime) : Decidable t.IsWhole := inferInstanceAs (Decidable (t.nanos % 10 ^ 9 = 0))

/-- The instant lies inside a leap second. -/
def IsLeap (t : DateTime) : Prop := 10 ^ 9 ≤ t.nanos

instance (t : DateTime) : Decidable t.IsLeap := inferInstanceAs (Decidable (10 ^ 9 ≤ t.nanos))

/-- The instant lies in the years RFC 3339 has, 0000 to 9999. -/
def InYears (t : DateTime) : Prop := -62167219200 ≤ t.seconds ∧ t.seconds < 253402300800

instance (t : DateTime) : Decidable t.InYears :=
  inferInstanceAs (Decidable (-62167219200 ≤ t.seconds ∧ t.seconds < 253402300800))

end DateTime

/-- A day later and earlier, an instant cut to its second, its renderings, with as much of the fraction as it has and
to the second, and the reading. -/
structure Calendar where
  addDay : DateTime → DateTime
  subDay : DateTime → DateTime
  wholeSeconds : DateTime → DateTime
  auto : DateTime → String
  secs : DateTime → String
  parse : String → Option DateTime

structure Calendar.Lawful (times : Calendar) : Prop where
  /-- Outside leap seconds, what is no earlier than a day before `now` is, a day later, no earlier than `now`. -/
  le_addDay : ∀ now t, ¬ t.IsLeap → times.subDay now ≤ t → now ≤ times.addDay t
  isWhole_wholeSeconds : ∀ t, (times.wholeSeconds t).IsWhole
  wholeSeconds_eq_self : ∀ t, t.IsWhole → times.wholeSeconds t = t
  /-- Reading inverts rendering on the years there are, up to the fraction that was left out. -/
  parse_auto : ∀ t, times.parse (times.auto t) = if t.InYears then some t else none
  parse_secs : ∀ t, times.parse (times.secs t) = if t.InYears then some (times.wholeSeconds t) else none

/-! ### A calendar to try it with -/

/-- The instant as two decimal numbers, the seconds counted from the year 0000. -/
def plainText (t : DateTime) : String :=
  if t.InYears then toString (t.seconds + 62167219200).toNat ++ "." ++ toString t.nanos else ""

/-- The instant `seconds` after the start of the year 0000. -/
def instant? (seconds nanos : Nat) : Option DateTime :=
  if h : nanos < 10 ^ 9 ∨ nanos < 2 * 10 ^ 9 ∧ ((seconds : Int) - 62167219200) % 60 = 59 then
    some ⟨(seconds : Int) - 62167219200, nanos, h⟩
  else none

def plainRead (text : String) : Option DateTime :=
  match text.toList.dropWhile (· ≠ '.') with
  | [] => none
  | _ :: fraction =>
    instant? (Nat.ofDigitChars 10 (text.toList.takeWhile (· ≠ '.')) 0) (Nat.ofDigitChars 10 fraction 0)

/-- The instant at the start of its second, a leap second included. -/
def plainWhole (t : DateTime) : DateTime where
  seconds := t.seconds
  nanos := t.nanos - t.nanos % 10 ^ 9
  valid := by
    have hvalid := t.valid
    omega

/-- Days of 86400 seconds, for which a leap second is none. -/
def plainTimes : Calendar where
  addDay t := ⟨t.seconds + 86400, t.nanos % 10 ^ 9, .inl (Nat.mod_lt _ (by decide))⟩
  subDay t := ⟨t.seconds - 86400 + if 10 ^ 9 ≤ t.nanos then 1 else 0, t.nanos % 10 ^ 9, .inl (Nat.mod_lt _ (by decide))⟩
  wholeSeconds := plainWhole
  auto := plainText
  secs t := plainText (plainWhole t)
  parse := plainRead

theorem instant?_seconds {t : DateTime} (h : t.InYears) :
    instant? (t.seconds + 62167219200).toNat t.nanos = some t := by
  have hnonneg : 0 ≤ t.seconds + 62167219200 := by
    rw [DateTime.InYears] at h
    omega
  have hseconds : (((t.seconds + 62167219200).toNat : Nat) : Int) - 62167219200 = t.seconds := by
    rw [Int.toNat_of_nonneg hnonneg]
    omega
  rw [instant?, dif_pos (by rw [hseconds]; exact t.valid)]
  rcases t with ⟨seconds, nanos, valid⟩
  simp only [hseconds]

theorem plainRead_plainText (t : DateTime) : plainRead (plainText t) = if t.InYears then some t else none := by
  by_cases h : t.InYears
  · have htext : (plainText t).toList =
        (toString (t.seconds + 62167219200).toNat).toList ++ '.' :: (toString t.nanos).toList := by
      rw [plainText, if_pos h, String.toList_append, String.toList_append, List.append_assoc]
      rfl
    have hpre : ∀ c ∈ (toString (t.seconds + 62167219200).toNat).toList, decide (c ≠ '.') = true := by
      intro c hc
      refine decide_eq_true fun hdot => ?_
      exact notMem_toString (by decide) _ (hdot ▸ hc)
    rw [plainRead, htext, List.dropWhile_append_of_pos hpre, List.takeWhile_append_of_pos hpre]
    simp only [ne_eq, List.dropWhile_cons, List.takeWhile_cons, not_true, decide_false, if_false,
      Bool.false_eq_true, List.append_nil]
    rw [ofDigitChars_toString, ofDigitChars_toString, instant?_seconds h, if_pos h]
  · rw [plainText, if_neg h, if_neg h]
    rfl

theorem plainTimes_lawful : plainTimes.Lawful where
  le_addDay now t hleap h := by
    rw [DateTime.IsLeap] at hleap
    rw [DateTime.le_def] at h ⊢
    simp only [plainTimes] at h ⊢
    have hvalid := now.valid
    split at h <;> omega
  isWhole_wholeSeconds t := by
    change (t.nanos - t.nanos % 10 ^ 9) % 10 ^ 9 = 0
    omega
  wholeSeconds_eq_self t h := by
    rcases t with ⟨seconds, nanos, valid⟩
    change nanos % 10 ^ 9 = 0 at h
    simp only [plainTimes, plainWhole, DateTime.mk.injEq, true_and]
    omega
  parse_auto := plainRead_plainText
  parse_secs t := plainRead_plainText (plainWhole t)

end TrustInfrastructure.Lib
