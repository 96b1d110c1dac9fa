import AhlMirror.Core.Decimal

/-!
# The proleptic Gregorian calendar

Civil times from year 0 on, to the nanosecond, and the instants they name: every instant has exactly one
civil time, and the two are in one order. Years and months are blocks of days laid in a row, so what is
shown once for blocks (`offset_add_lt_iff`, `locate_spec`) serves both.
-/

namespace AhlMirror.Core

/-! ### Blocks in a row -/

/-- Where block `n` begins, when block `i` is `len i` long. -/
def offset (len : Nat → Nat) : Nat → Nat
  | 0 => 0
  | n + 1 => offset len n + len n

theorem offset_le_offset (len : Nat → Nat) {n m : Nat} (h : n < m) : offset len n + len n ≤ offset len m := by
  induction m with
  | zero => omega
  | succ m ih =>
    rw [offset]
    rcases Nat.lt_succ_iff_lt_or_eq.1 h with hlt | rfl
    · exact (ih hlt).trans (Nat.le_add_right _ _)
    · exact le_rfl

theorem offset_add_lt_iff (len : Nat → Nat) {n n' r r' : Nat} (hr : r < len n) (hr' : r' < len n') :
    offset len n + r < offset len n' + r' ↔ n < n' ∨ n = n' ∧ r < r' := by
  rcases lt_trichotomy n n' with hn | rfl | hn
  · have hle := offset_le_offset len hn
    exact iff_of_true (by omega) (Or.inl hn)
  · simp
  · have hle := offset_le_offset len hn
    exact iff_of_false (by omega) (by omega)

theorem offset_add_ge {len : Nat → Nat} {k : Nat} (h : ∀ i, k ≤ len i) (n m : Nat) :
    offset len n + k * m ≤ offset len (n + m) := by
  induction m with
  | zero => simp
  | succ m ih =>
    rw [← Nat.add_assoc, offset, Nat.mul_succ]
    have := h (n + m)
    omega

/-- The block a place lies in, from block `first` on, and the place within it. -/
def locate (len : Nat → Nat) : Nat → Nat → Nat → Nat × Nat
  | 0, first, place => (first, place)
  | fuel + 1, first, place =>
    if place < len first then (first, place) else locate len fuel (first + 1) (place - len first)

theorem locate_spec {len : Nat → Nat} {k : Nat} (hpos : 0 < k) (hlen : ∀ i, k ≤ len i) : ∀ {fuel place : Nat} (first : Nat),
    place < k * fuel → offset len (locate len fuel first place).1 + (locate len fuel first place).2 =
      offset len first + place ∧ (locate len fuel first place).2 < len (locate len fuel first place).1
  | 0, _, _, h => by simp at h
  | fuel + 1, place, first, h => by
    rw [locate]
    split_ifs with hlt
    · exact ⟨rfl, hlt⟩
    · have hfirst := hlen first
      rw [Nat.mul_succ] at h
      obtain ⟨hplace, hwithin⟩ := locate_spec hpos hlen (first + 1) (show place - len first < k * fuel by omega)
      refine ⟨?_, hwithin⟩
      rw [hplace, offset]
      omega

theorem lt_mul_turns {k : Nat} (hpos : 0 < k) (place : Nat) : place < k * (place / k + 1) := by
  have := Nat.lt_div_mul_add hpos (a := place)
  rw [Nat.mul_comm, Nat.add_one_mul]
  exact this

/-! ### Years and months -/

def isLeapYear (year : Nat) : Bool := year % 4 == 0 && (year % 100 != 0 || year % 400 == 0)

/-- The days of a month, counted from 1. -/
def monthLength (year month : Nat) : Nat :=
  match month with
  | 2 => if isLeapYear year then 29 else 28
  | 4 | 6 | 9 | 11 => 30
  | _ => 31

/-- The days of a year before a month, counted from 0. -/
def daysBefore (year month : Nat) : Nat := offset (fun m => monthLength year (m + 1)) month

def yearLength (year : Nat) : Nat := daysBefore year 12

theorem yearLength_eq (year : Nat) : yearLength year = if isLeapYear year then 366 else 365 := by
  simp only [yearLength, daysBefore, offset, monthLength]
  split_ifs <;> rfl

theorem yearLength_ge (year : Nat) : 365 ≤ yearLength year := by
  rw [yearLength_eq]
  split_ifs <;> omega

theorem monthLength_ge (year month : Nat) : 28 ≤ monthLength year month := by
  unfold monthLength
  split
  · split_ifs <;> omega
  all_goals omega

theorem monthLength_le (year month : Nat) : monthLength year month ≤ 31 := by
  unfold monthLength
  split
  · split_ifs <;> omega
  all_goals omega

/-! ### Civil times -/

/-- A day that the calendar has, and a time of that day. -/
structure CivilTime where
  year : Nat
  month : Nat
  day : Nat
  hour : Nat
  minute : Nat
  second : Nat
  nanosecond : Nat
  month_pos : 1 ≤ month
  month_le : month ≤ 12
  day_pos : 1 ≤ day
  day_le : day ≤ monthLength year month
  hour_lt : hour < 24
  minute_lt : minute < 60
  second_lt : second < 60
  nanosecond_lt : nanosecond < 1000000000

namespace CivilTime

def dayOfYear (t : CivilTime) : Nat := daysBefore t.year (t.month - 1) + (t.day - 1)

/-- The days since the first of year 0. -/
def dayNumber (t : CivilTime) : Nat := offset yearLength t.year + t.dayOfYear

/-- The nanoseconds since the first of year 0. -/
def instant (t : CivilTime) : Nat :=
  (((t.dayNumber * 24 + t.hour) * 60 + t.minute) * 60 + t.second) * 1000000000 + t.nanosecond

/-- The fields, the weightiest first. -/
def fields (t : CivilTime) : List Nat := [t.year, t.month, t.day, t.hour, t.minute, t.second, t.nanosecond]

theorem fields_injective {t t' : CivilTime} (h : t.fields = t'.fields) : t = t' := by
  obtain ⟨⟩ := t
  obtain ⟨⟩ := t'
  simp only [fields, List.cons.injEq, and_true] at h
  obtain ⟨rfl, rfl, rfl, rfl, rfl, rfl, rfl⟩ := h
  rfl

/-! ### Order -/

theorem day_lt (t : CivilTime) : t.day - 1 < monthLength t.year (t.month - 1 + 1) := by
  rw [Nat.sub_add_cancel t.month_pos]
  exact Nat.sub_one_lt_of_le t.day_pos t.day_le

theorem dayOfYear_lt (t : CivilTime) : t.dayOfYear < yearLength t.year := by
  have hmonth : t.month - 1 < 12 := Nat.sub_one_lt_of_le t.month_pos t.month_le
  have hday := t.day_lt
  have hyear : daysBefore t.year (t.month - 1) + monthLength t.year (t.month - 1 + 1) ≤ yearLength t.year :=
    offset_le_offset _ hmonth
  unfold dayOfYear
  omega

theorem dayNumber_orderedBy : OrderedBy dayNumber fun t => [t.year, t.month, t.day] := by
  intro t t'
  have hmonth := t.month_pos
  have hmonth' := t'.month_pos
  have hday := t.day_pos
  have hday' := t'.day_pos
  rw [dayNumber, dayNumber, offset_add_lt_iff yearLength t.dayOfYear_lt t'.dayOfYear_lt]
  simp only [List.cons_lt_cons_iff, List.lt_irrefl, and_false, or_false]
  refine or_congr_right (and_congr_right fun hyear => ?_)
  have hdayLt := t'.day_lt
  rw [← hyear] at hdayLt
  have hmonths : daysBefore t.year (t.month - 1) + (t.day - 1) < daysBefore t.year (t'.month - 1) + (t'.day - 1) ↔ _ :=
    offset_add_lt_iff (fun m => monthLength t.year (m + 1)) t.day_lt hdayLt
  rw [dayOfYear, dayOfYear, ← hyear, hmonths]
  omega

theorem instant_orderedBy : OrderedBy instant fields :=
  (((dayNumber_orderedBy.append (fun _ _ => rfl) hour_lt).append (fun _ _ => rfl) minute_lt).append (fun _ _ => rfl)
    second_lt).append (fun _ _ => rfl) nanosecond_lt

theorem instant_injective {t t' : CivilTime} (h : t.instant = t'.instant) : t = t' :=
  fields_injective ((instant_orderedBy.eq_iff t t').1 h)

/-! ### The time of an instant -/

/-- The year a day lies in and its place there. -/
def locateYear (dayNumber : Nat) : Nat × Nat := locate yearLength (dayNumber / 365 + 1) 0 dayNumber

/-- The month a day of a year lies in and its place there. -/
def locateMonth (year dayOfYear : Nat) : Nat × Nat :=
  locate (fun m => monthLength year (m + 1)) (dayOfYear / 28 + 1) 0 dayOfYear

theorem locateYear_spec (dayNumber : Nat) :
    offset yearLength (locateYear dayNumber).1 + (locateYear dayNumber).2 = dayNumber ∧
      (locateYear dayNumber).2 < yearLength (locateYear dayNumber).1 := by
  have h := locate_spec (show 0 < 365 by decide) yearLength_ge 0 (lt_mul_turns (by decide) dayNumber)
  rwa [offset, Nat.zero_add] at h

theorem locateMonth_spec (year dayOfYear : Nat) :
    daysBefore year (locateMonth year dayOfYear).1 + (locateMonth year dayOfYear).2 = dayOfYear ∧
      (locateMonth year dayOfYear).2 < monthLength year ((locateMonth year dayOfYear).1 + 1) := by
  have h := locate_spec (show 0 < 28 by decide) (fun m => monthLength_ge year (m + 1)) 0
    (lt_mul_turns (by decide) dayOfYear)
  rwa [offset, Nat.zero_add] at h

theorem locateMonth_lt {year dayOfYear : Nat} (h : dayOfYear < yearLength year) :
    (locateMonth year dayOfYear).1 < 12 := by
  obtain ⟨hplace, -⟩ := locateMonth_spec year dayOfYear
  by_contra hge
  rcases Nat.eq_or_lt_of_le (Nat.le_of_not_lt hge) with heq | hlt
  · rw [← heq] at hplace
    have : yearLength year = daysBefore year 12 := rfl
    omega
  · have hle : daysBefore year 12 + monthLength year (12 + 1) ≤ daysBefore year (locateMonth year dayOfYear).1 :=
      offset_le_offset _ hlt
    have : yearLength year = daysBefore year 12 := rfl
    omega

/-- The civil time of an instant. -/
def ofInstant (n : Nat) : CivilTime :=
  let seconds := n / 1000000000
  let inYear := locateYear (seconds / 86400)
  let inMonth := locateMonth inYear.1 inYear.2
  { year := inYear.1
    month := inMonth.1 + 1
    day := inMonth.2 + 1
    hour := seconds / 3600 % 24
    minute := seconds / 60 % 60
    second := seconds % 60
    nanosecond := n % 1000000000
    month_pos := Nat.le_add_left _ _
    month_le := locateMonth_lt (locateYear_spec _).2
    day_pos := Nat.le_add_left _ _
    day_le := (locateMonth_spec _ _).2
    hour_lt := Nat.mod_lt _ (by decide)
    minute_lt := Nat.mod_lt _ (by decide)
    second_lt := Nat.mod_lt _ (by decide)
    nanosecond_lt := Nat.mod_lt _ (by decide) }

theorem dayNumber_ofInstant (n : Nat) : (ofInstant n).dayNumber = n / 1000000000 / 86400 := by
  obtain ⟨hyear, -⟩ := locateYear_spec (n / 1000000000 / 86400)
  obtain ⟨hmonth, -⟩ := locateMonth_spec (locateYear (n / 1000000000 / 86400)).1
    (locateYear (n / 1000000000 / 86400)).2
  simp only [dayNumber, dayOfYear, ofInstant, Nat.add_sub_cancel]
  rw [hmonth, hyear]

theorem instant_ofInstant (n : Nat) : (ofInstant n).instant = n := by
  rw [instant, dayNumber_ofInstant]
  simp only [ofInstant]
  omega

theorem year_ofInstant_lt {n year : Nat} (h : n / 1000000000 / 86400 < offset yearLength year) :
    (ofInstant n).year < year := by
  have hday := dayNumber_ofInstant n
  by_contra hge
  rcases Nat.eq_or_lt_of_le (Nat.le_of_not_lt hge) with heq | hlt
  · rw [dayNumber, ← heq] at hday
    omega
  · have hle := offset_le_offset yearLength hlt
    rw [dayNumber] at hday
    omega

end CivilTime

end AhlMirror.Core
