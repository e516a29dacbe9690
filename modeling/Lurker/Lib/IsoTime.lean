import Mathlib.Algebra.Order.Group.Nat
import Mathlib.Data.Char
import Mathlib.Data.List.Lex
import Mathlib.Data.Nat.Find

/-!
# Times as text

The text of an instant in the form `YYYY-MM-DDTHH:mm:ss.sssZ`, and its reading. Instants
are milliseconds from the start of year 0 of the proleptic Gregorian calendar. While the
year has four digits the text has one width, and texts compare as the instants do.
-/

namespace IsoTime

/-- The place of a quantity is the last that starts at or below it. -/
structure InPlace (start : Nat → Nat) (n place : Nat) : Prop where
  low : start place ≤ n
  high : n < start (place + 1)

theorem InPlace.lt_iff {start : Nat → Nat} (hmono : Monotone start) {n n' k k' : Nat}
    (h : InPlace start n k) (h' : InPlace start n' k') :
    n < n' ↔ k < k' ∨ k = k' ∧ n - start k < n' - start k' := by
  obtain ⟨hlow, hhigh⟩ := h
  obtain ⟨hlow', hhigh'⟩ := h'
  rcases Nat.lt_trichotomy k k' with hk | rfl | hk
  · have := hmono (show k + 1 ≤ k' from hk)
    exact iff_of_true (by omega) (Or.inl hk)
  · omega
  · have := hmono (show k' + 1 ≤ k from hk)
    exact iff_of_false (by omega) (by omega)

theorem div_mod_lt_iff {b : Nat} (hb : 0 < b) (n n' : Nat) :
    n < n' ↔ n / b < n' / b ∨ n / b = n' / b ∧ n % b < n' % b := by
  have hplace (m : Nat) : InPlace (b * ·) m (m / b) :=
    ⟨Nat.mul_div_le m b, by rw [Nat.mul_add_one]; exact Nat.lt_mul_div_succ m hb⟩
  have hrest (m : Nat) : m - b * (m / b) = m % b := by
    have := Nat.div_add_mod m b
    omega
  have h := (hplace n).lt_iff (fun _ _ hle => Nat.mul_le_mul_left b hle) (hplace n')
  rwa [hrest, hrest] at h

/-- The last place below a bound that starts at or below a quantity. -/
theorem inPlace_findGreatest {start : Nat → Nat} {n top : Nat} (hzero : start 0 = 0)
    (htop : n < start (top + 1)) : InPlace start n (Nat.findGreatest (fun k => start k ≤ n) top) := by
  have hspec := Nat.findGreatest_spec (P := fun k => start k ≤ n) (Nat.zero_le top) (by omega)
  refine ⟨hspec, ?_⟩
  have hle := Nat.findGreatest_le (P := fun k => start k ≤ n) top
  rcases hle.lt_or_eq with h | h
  · exact Nat.lt_of_not_le
      (Nat.findGreatest_is_greatest (P := fun k => start k ≤ n) (Nat.lt_succ_self _) h)
  · rw [h]
    exact htop

/-- The last digits of a number, so many of them. -/
def pad : Nat → Nat → List Char
  | 0, _ => []
  | w + 1, n => pad w (n / 10) ++ [Nat.digitChar (n % 10)]

@[simp] theorem length_pad (w n : Nat) : (pad w n).length = w := by
  induction w generalizing n with
  | zero => rfl
  | succ w ih => simp [pad, ih]

theorem append_lt_append_iff {xs xs' ys ys' : List Char} (h : xs.length = xs'.length) :
    xs ++ ys < xs' ++ ys' ↔ xs < xs' ∨ xs = xs' ∧ ys < ys' := by
  induction xs generalizing xs' with
  | nil =>
    obtain rfl := List.length_eq_zero_iff.mp h.symm
    simp
  | cons x xs ih =>
    match xs', h with
    | x' :: xs', h =>
      rw [List.cons_append, List.cons_append, List.cons_lt_cons_iff, List.cons_lt_cons_iff,
        ih (Nat.succ.inj h), List.cons.injEq]
      tauto

theorem digitChar_lt_iff {a b : Nat} (ha : a < 10) (hb : b < 10) :
    Nat.digitChar a < Nat.digitChar b ↔ a < b := by
  have h : ∀ a b : Fin 10, Nat.digitChar a < Nat.digitChar b ↔ a < b := by decide
  exact h ⟨a, ha⟩ ⟨b, hb⟩

theorem pad_lt_iff {w n m : Nat} (hn : n < 10 ^ w) (hm : m < 10 ^ w) : pad w n < pad w m ↔ n < m := by
  induction w generalizing n m with
  | zero =>
    rw [pow_zero] at hn hm
    exact iff_of_false (List.not_lt_nil _) (by omega)
  | succ w ih =>
    rw [pow_succ] at hn hm
    have hn' : n / 10 < 10 ^ w := Nat.div_lt_of_lt_mul (by omega)
    have hm' : m / 10 < 10 ^ w := Nat.div_lt_of_lt_mul (by omega)
    have heq : pad w (n / 10) = pad w (m / 10) ↔ n / 10 = m / 10 := by
      refine ⟨fun h => ?_, congrArg (pad w)⟩
      have hle := mt (ih hn' hm').mpr (h ▸ lt_irrefl _)
      have hge := mt (ih hm' hn').mpr (h ▸ lt_irrefl _)
      omega
    rw [pad, pad, append_lt_append_iff (by simp), ih hn' hm', heq, List.cons_lt_cons_iff,
      digitChar_lt_iff (Nat.mod_lt _ (by omega)) (Nat.mod_lt _ (by omega)),
      div_mod_lt_iff (by omega : 0 < 10) n m]
    simp

theorem pad_inj {w n m : Nat} (hn : n < 10 ^ w) (hm : m < 10 ^ w) (h : pad w n = pad w m) : n = m := by
  have hle := mt (pad_lt_iff hn hm).mpr (h ▸ lt_irrefl _)
  have hge := mt (pad_lt_iff hm hn).mpr (h ▸ lt_irrefl _)
  omega

/-- Texts that start with a field compare as the field, then as what follows it. -/
theorem field_lt_iff {w k k' : Nat} (c : Char) {ys ys' : List Char} (hk : k < 10 ^ w)
    (hk' : k' < 10 ^ w) :
    pad w k ++ c :: ys < pad w k' ++ c :: ys' ↔ k < k' ∨ k = k' ∧ ys < ys' := by
  have heq : pad w k = pad w k' ↔ k = k' := ⟨pad_inj hk hk', congrArg (pad w)⟩
  rw [append_lt_append_iff (by simp), pad_lt_iff hk hk', heq, List.cons_lt_cons_iff]
  simp

/-- Days from the start of year 0 to the start of a year. -/
def daysBeforeYear (y : Nat) : Nat := 365 * y + (y + 3) / 4 - (y + 99) / 100 + (y + 399) / 400

def isLeapYear (y : Nat) : Bool := y % 4 = 0 ∧ (y % 100 ≠ 0 ∨ y % 400 = 0)

theorem daysBeforeYear_succ (y : Nat) :
    daysBeforeYear (y + 1) = daysBeforeYear y + if isLeapYear y then 366 else 365 := by
  have h4 : (y + 1 + 3) / 4 = (y + 3) / 4 + if y % 4 = 0 then 1 else 0 := by split <;> omega
  have h100 : (y + 1 + 99) / 100 = (y + 99) / 100 + if y % 100 = 0 then 1 else 0 := by
    split <;> omega
  have h400 : (y + 1 + 399) / 400 = (y + 399) / 400 + if y % 400 = 0 then 1 else 0 := by
    split <;> omega
  have hleap : (if isLeapYear y then 366 else 365) + (if y % 100 = 0 then 1 else 0) =
      365 + (if y % 4 = 0 then 1 else 0) + if y % 400 = 0 then 1 else 0 := by
    unfold isLeapYear
    by_cases hd : y % 4 = 0 <;> by_cases hc : y % 100 = 0 <;> by_cases hq : y % 400 = 0 <;>
      simp [hd, hc, hq] <;> omega
  have hbelow : (y + 99) / 100 ≤ 365 * y := by omega
  unfold daysBeforeYear
  omega

theorem daysBeforeYear_mono : Monotone daysBeforeYear := by
  refine monotone_nat_of_le_succ fun y => ?_
  rw [daysBeforeYear_succ]
  exact Nat.le_add_right _ _

/-- The first days of the months of a common year. -/
def monthStarts : List Nat := [0, 31, 59, 90, 120, 151, 181, 212, 243, 273, 304, 334]

def daysBeforeMonth (leap : Bool) (m : Nat) : Nat :=
  monthStarts.getD m 365 + if leap ∧ 2 ≤ m then 1 else 0

theorem daysBeforeMonth_mono (leap : Bool) : Monotone (daysBeforeMonth leap) := by
  refine monotone_nat_of_le_succ fun m => ?_
  by_cases hm : m < 12
  · have h : ∀ leap, ∀ m < 12, daysBeforeMonth leap m ≤ daysBeforeMonth leap (m + 1) := by decide
    exact h leap m hm
  · have hover (k : Nat) (hk : 12 ≤ k) : daysBeforeMonth leap k = 365 + if leap then 1 else 0 := by
      have hnone : monthStarts[k]? = none := List.getElem?_eq_none hk
      simp [daysBeforeMonth, List.getD_eq_getElem?_getD, hnone, show 2 ≤ k by omega]
    rw [hover m (by omega), hover (m + 1) (by omega)]

def yearOf (day : Nat) : Nat := Nat.findGreatest (fun y => daysBeforeYear y ≤ day) (day / 365)

def monthOf (leap : Bool) (dayInYear : Nat) : Nat :=
  Nat.findGreatest (fun m => daysBeforeMonth leap m ≤ dayInYear) 11

theorem inPlace_yearOf (day : Nat) : InPlace daysBeforeYear day (yearOf day) := by
  refine inPlace_findGreatest rfl ?_
  unfold daysBeforeYear
  omega

theorem inPlace_monthOf {leap : Bool} {dayInYear : Nat}
    (h : dayInYear < if leap then 366 else 365) :
    InPlace (daysBeforeMonth leap) dayInYear (monthOf leap dayInYear) := by
  refine inPlace_findGreatest (by cases leap <;> rfl) ?_
  cases leap <;> exact h

def msPerDay : Nat := 86400000

def secondText (ms : Nat) : List Char := pad 2 (ms / 1000) ++ '.' :: (pad 3 (ms % 1000) ++ ['Z'])

def minuteText (ms : Nat) : List Char := pad 2 (ms / 60000) ++ ':' :: secondText (ms % 60000)

def hourText (ms : Nat) : List Char := pad 2 (ms / 3600000) ++ ':' :: minuteText (ms % 3600000)

/-- The text from the day of the month on. -/
def dayText (day ms : Nat) : List Char := pad 2 (day + 1) ++ 'T' :: hourText ms

def monthText (leap : Bool) (dayInYear ms : Nat) : List Char :=
  let month := monthOf leap dayInYear
  pad 2 (month + 1) ++ '-' :: dayText (dayInYear - daysBeforeMonth leap month) ms

/-- Years past 9999 take a sign and six digits. -/
def yearText (y : Nat) : List Char := if y ≤ 9999 then pad 4 y else '+' :: pad 6 y

/-- `toISOString`, from the start of year 0 on. -/
def toISOString (t : Nat) : List Char :=
  let day := t / msPerDay
  let year := yearOf day
  yearText year ++ '-' :: monthText (isLeapYear year) (day - daysBeforeYear year) (t % msPerDay)

/-- The last millisecond of year 9999. -/
def lastStamp : Nat := 315569519999999

theorem secondText_lt_iff {r r' : Nat} (h : r < 60000) (h' : r' < 60000) :
    secondText r < secondText r' ↔ r < r' := by
  rw [secondText, secondText, field_lt_iff '.' (by omega) (by omega),
    field_lt_iff 'Z' (by omega) (by omega), div_mod_lt_iff (by omega : 0 < 1000) r r']
  simp

theorem minuteText_lt_iff {r r' : Nat} (h : r < 3600000) (h' : r' < 3600000) :
    minuteText r < minuteText r' ↔ r < r' := by
  rw [minuteText, minuteText, field_lt_iff ':' (by omega) (by omega),
    secondText_lt_iff (by omega) (by omega), div_mod_lt_iff (by omega : 0 < 60000) r r']

theorem hourText_lt_iff {r r' : Nat} (h : r < msPerDay) (h' : r' < msPerDay) :
    hourText r < hourText r' ↔ r < r' := by
  unfold msPerDay at h h'
  rw [hourText, hourText, field_lt_iff ':' (by omega) (by omega),
    minuteText_lt_iff (by omega) (by omega), div_mod_lt_iff (by omega : 0 < 3600000) r r']

theorem monthOf_le (leap : Bool) (r : Nat) : monthOf leap r ≤ 11 := Nat.findGreatest_le 11

theorem dayOfMonth_lt {leap : Bool} {r : Nat} (h : r < if leap then 366 else 365) :
    r - daysBeforeMonth leap (monthOf leap r) < 31 := by
  have hlen : ∀ leap, ∀ m < 12,
      daysBeforeMonth leap (m + 1) ≤ daysBeforeMonth leap m + 31 := by decide
  have := hlen leap _ (Nat.lt_succ_of_le (monthOf_le leap r))
  obtain ⟨hlow, hhigh⟩ := inPlace_monthOf h
  omega

theorem monthText_lt_iff {leap : Bool} {r r' ms ms' : Nat} (h : r < if leap then 366 else 365)
    (h' : r' < if leap then 366 else 365) (hms : ms < msPerDay) (hms' : ms' < msPerDay) :
    monthText leap r ms < monthText leap r' ms' ↔ r < r' ∨ r = r' ∧ ms < ms' := by
  have hday := dayOfMonth_lt h
  have hday' := dayOfMonth_lt h'
  have hmonth := monthOf_le leap r
  have hmonth' := monthOf_le leap r'
  have hplace := inPlace_monthOf h
  have hplace' := inPlace_monthOf h'
  have hlt := hplace.lt_iff (daysBeforeMonth_mono leap) hplace'
  have hlow := hplace.low
  have hlow' := hplace'.low
  rw [monthText, monthText, field_lt_iff '-' (by omega) (by omega), dayText, dayText,
    field_lt_iff 'T' (by omega) (by omega), hourText_lt_iff hms hms', hlt]
  by_cases heq : monthOf leap r = monthOf leap r'
  · rw [heq] at hlow ⊢
    omega
  · have hne : r ≠ r' := fun hr => heq (hr ▸ rfl)
    omega

theorem dayInYear_lt (day : Nat) :
    day - daysBeforeYear (yearOf day) < if isLeapYear (yearOf day) then 366 else 365 := by
  obtain ⟨hlow, hhigh⟩ := inPlace_yearOf day
  rw [daysBeforeYear_succ] at hhigh
  omega

theorem yearOf_le {t : Nat} (h : t ≤ lastStamp) : yearOf (t / msPerDay) ≤ 9999 := by
  by_contra hlate
  have hmono := daysBeforeYear_mono (show 10000 ≤ yearOf (t / msPerDay) by omega)
  have hlow := (inPlace_yearOf (t / msPerDay)).low
  have hstart : daysBeforeYear 10000 = 3652425 := rfl
  unfold lastStamp at h
  unfold msPerDay at hmono hlow
  omega

/-- While years have four digits, texts compare as the instants do. -/
theorem toISOString_lt_iff {t t' : Nat} (h : t ≤ lastStamp) (h' : t' ≤ lastStamp) :
    toISOString t < toISOString t' ↔ t < t' := by
  have hyear := yearOf_le h
  have hyear' := yearOf_le h'
  have hplace := inPlace_yearOf (t / msPerDay)
  have hplace' := inPlace_yearOf (t' / msPerDay)
  have hlow := hplace.low
  have hlow' := hplace'.low
  have hpos : 0 < msPerDay := by decide
  have hrest := dayInYear_lt (t / msPerDay)
  have hrest' := dayInYear_lt (t' / msPerDay)
  rw [toISOString, toISOString, yearText, yearText, if_pos hyear, if_pos hyear',
    field_lt_iff '-' (by omega) (by omega), div_mod_lt_iff hpos t t',
    hplace.lt_iff daysBeforeYear_mono hplace']
  by_cases heq : yearOf (t / msPerDay) = yearOf (t' / msPerDay)
  · rw [heq] at hrest hlow ⊢
    rw [monthText_lt_iff hrest hrest' (Nat.mod_lt _ hpos) (Nat.mod_lt _ hpos)]
    omega
  · have hne : t / msPerDay ≠ t' / msPerDay := fun ht => heq (ht ▸ rfl)
    omega

theorem toISOString_le_iff {t t' : Nat} (h : t ≤ lastStamp) (h' : t' ≤ lastStamp) :
    toISOString t ≤ toISOString t' ↔ t ≤ t' := by
  rw [← not_lt, ← not_lt, toISOString_lt_iff h' h]

/-- A number of so many digits, and the rest. -/
def field (w : Nat) (cs : List Char) : Option (Nat × List Char) :=
  if (cs.take w).length = w ∧ (cs.take w).all Char.isDigit then
    some (Nat.ofDigitChars 10 (cs.take w) 0, cs.drop w)
  else none

def literal (c : Char) : List Char → Option (List Char)
  | [] => none
  | x :: cs => if x = c then some cs else none

/-- `Date.parse` of the form above. A day past the end of its month runs into the next. -/
def dateParse (cs : List Char) : Option Nat := do
  let (year, cs) ← field 4 cs
  let (month, cs) ← field 2 (← literal '-' cs)
  let (day, cs) ← field 2 (← literal '-' cs)
  let (hour, cs) ← field 2 (← literal 'T' cs)
  let (minute, cs) ← field 2 (← literal ':' cs)
  let (second, cs) ← field 2 (← literal ':' cs)
  let (ms, cs) ← field 3 (← literal '.' cs)
  let cs ← literal 'Z' cs
  let inDay := hour * 3600000 + minute * 60000 + second * 1000 + ms
  if cs = [] ∧ 1 ≤ month ∧ month ≤ 12 ∧ 1 ≤ day ∧ day ≤ 31 ∧ minute < 60 ∧ second < 60 ∧
      inDay ≤ msPerDay then
    some ((daysBeforeYear year + daysBeforeMonth (isLeapYear year) (month - 1) + (day - 1)) *
      msPerDay + inDay)
  else none

theorem pad_digits (w n : Nat) : (pad w n).all Char.isDigit = true := by
  induction w generalizing n with
  | zero => rfl
  | succ w ih =>
    have hdigit : ∀ d : Fin 10, (Nat.digitChar d).isDigit = true := by decide
    rw [pad, List.all_append, ih, List.all_cons, hdigit ⟨n % 10, Nat.mod_lt _ (by omega)⟩]
    rfl

theorem ofDigitChars_pad {w n : Nat} (h : n < 10 ^ w) : Nat.ofDigitChars 10 (pad w n) 0 = n := by
  induction w generalizing n with
  | zero =>
    rw [pow_zero] at h
    rw [pad, Nat.ofDigitChars_nil]
    omega
  | succ w ih =>
    rw [pow_succ] at h
    rw [pad, Nat.ofDigitChars_append, ih (Nat.div_lt_of_lt_mul (by omega)),
      Nat.ofDigitChars_cons_digitChar_of_lt_ten (Nat.mod_lt _ (by omega)), Nat.ofDigitChars_nil]
    omega

theorem field_pad {w n : Nat} (h : n < 10 ^ w) (rest : List Char) :
    field w (pad w n ++ rest) = some (n, rest) := by
  have htake : (pad w n ++ rest).take w = pad w n := by
    rw [List.take_append_of_le_length (by simp), List.take_of_length_le (by simp)]
  have hdrop : (pad w n ++ rest).drop w = rest := List.drop_left' (length_pad w n)
  rw [field, htake, hdrop, if_pos ⟨length_pad w n, pad_digits w n⟩, ofDigitChars_pad h]

@[simp] theorem literal_cons (c : Char) (cs : List Char) : literal c (c :: cs) = some cs :=
  if_pos rfl

/-- The day, the year's day and the time of day that a text spells are read back. -/
theorem dateParse_fields {year month day ms : Nat} (hyear : year ≤ 9999) (hmonth : month ≤ 11)
    (hday : day < 31) (hms : ms < msPerDay) :
    dateParse (pad 4 year ++ '-' :: (pad 2 (month + 1) ++ '-' :: dayText day ms)) =
      some ((daysBeforeYear year + daysBeforeMonth (isLeapYear year) month + day) * msPerDay + ms) := by
  unfold msPerDay at hms
  have hspell : ms / 3600000 * 3600000 + ms % 3600000 / 60000 * 60000 +
      ms % 3600000 % 60000 / 1000 * 1000 + ms % 3600000 % 60000 % 1000 = ms := by omega
  have hrange : 1 ≤ month + 1 ∧ month + 1 ≤ 12 ∧ 1 ≤ day + 1 ∧ day + 1 ≤ 31 ∧
      ms % 3600000 / 60000 < 60 ∧ ms % 3600000 % 60000 / 1000 < 60 ∧ ms ≤ msPerDay := by
    unfold msPerDay
    omega
  have hhour : ms / 3600000 < 10 ^ 2 := by omega
  have hminute : ms % 3600000 / 60000 < 10 ^ 2 := by omega
  have hsecond : ms % 3600000 % 60000 / 1000 < 10 ^ 2 := by omega
  have hrest : ms % 3600000 % 60000 % 1000 < 10 ^ 3 := by omega
  unfold dateParse dayText hourText minuteText secondText
  rw [field_pad (show year < 10 ^ 4 by omega)]
  dsimp only [Option.bind_eq_bind, Option.bind_some]
  rw [literal_cons]
  dsimp only [Option.bind_some]
  rw [field_pad (show month + 1 < 10 ^ 2 by omega)]
  dsimp only [Option.bind_eq_bind, Option.bind_some]
  rw [literal_cons]
  dsimp only [Option.bind_some]
  rw [field_pad (show day + 1 < 10 ^ 2 by omega)]
  dsimp only [Option.bind_eq_bind, Option.bind_some]
  rw [literal_cons]
  dsimp only [Option.bind_some]
  rw [field_pad hhour]
  dsimp only [Option.bind_eq_bind, Option.bind_some]
  rw [literal_cons]
  dsimp only [Option.bind_some]
  rw [field_pad hminute]
  dsimp only [Option.bind_eq_bind, Option.bind_some]
  rw [literal_cons]
  dsimp only [Option.bind_some]
  rw [field_pad hsecond]
  dsimp only [Option.bind_eq_bind, Option.bind_some]
  rw [literal_cons]
  dsimp only [Option.bind_some]
  rw [field_pad hrest]
  dsimp only [Option.bind_eq_bind, Option.bind_some]
  rw [literal_cons]
  dsimp only [Option.bind_some]
  rw [hspell]
  rw [if_pos ⟨rfl, hrange⟩]
  rfl

theorem dateParse_toISOString {t : Nat} (h : t ≤ lastStamp) :
    dateParse (toISOString t) = some t := by
  have hyear := yearOf_le h
  have hrest := dayInYear_lt (t / msPerDay)
  have hlow := (inPlace_yearOf (t / msPerDay)).low
  have hlowMonth := (inPlace_monthOf hrest).low
  rw [toISOString, yearText, if_pos hyear, monthText,
    dateParse_fields hyear (monthOf_le _ _) (dayOfMonth_lt hrest) (Nat.mod_lt _ (by decide))]
  have hday : daysBeforeYear (yearOf (t / msPerDay)) +
      daysBeforeMonth (isLeapYear (yearOf (t / msPerDay)))
        (monthOf (isLeapYear (yearOf (t / msPerDay)))
          (t / msPerDay - daysBeforeYear (yearOf (t / msPerDay)))) +
      (t / msPerDay - daysBeforeYear (yearOf (t / msPerDay)) -
        daysBeforeMonth (isLeapYear (yearOf (t / msPerDay)))
          (monthOf (isLeapYear (yearOf (t / msPerDay)))
            (t / msPerDay - daysBeforeYear (yearOf (t / msPerDay))))) = t / msPerDay := by
    omega
  rw [hday, Nat.div_add_mod']

end IsoTime
