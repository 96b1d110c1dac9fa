import Mathlib.Data.List.Induction
import AhlMirror.Model.Duration

/-!
# The duration grammar

What the duration parser accepts, said by a grammar: `Duration` is a derivation, its text and its total
are read off it. The parser takes every text the grammar derives, to its total where that fits, and one
kind of text more: those with a `+` in front of the whole seconds, which alone are not checked digit by
digit before they go to the integer parser (`parseIso8601DurationNanos_eq_ok`).
-/

namespace AhlMirror

/-! ### The grammar -/

/-- A run of ASCII digits. -/
structure Digits where
  chars : List Char
  nonempty : chars ≠ []
  ascii : ∀ c ∈ chars, isAsciiDigit c = true

namespace Digits

def value (digits : Digits) : Nat := digitsValue digits.chars

/-- Read as the digits behind a decimal point, in units of the ninth. -/
def nanos (digits : Digits) : Nat := digits.value * 10 ^ (9 - digits.chars.length)

end Digits

/-- `n ['.' f]`, with at most nine digits in `f`. -/
structure Seconds where
  whole : Digits
  fraction : Option Digits
  short : ∀ f ∈ fraction, f.chars.length ≤ 9

/-- `[n unit]`. -/
def component (run : Option Digits) (unit : Char) : List Char := run.elim [] fun digits => digits.chars ++ [unit]

def count (run : Option Digits) : Nat := run.elim 0 Digits.value

/-- `[n ['.' f] 'S']`, with a sign in front of `n`. -/
def secondsText (sign : List Char) (seconds : Option Seconds) : List Char :=
  seconds.elim [] fun s => sign ++ s.whole.chars ++ (s.fraction.elim [] fun f => '.' :: f.chars) ++ ['S']

/-- What follows `T`: at least one of its components. -/
structure TimePart where
  hours : Option Digits
  minutes : Option Digits
  seconds : Option Seconds
  present : ¬ (hours = none ∧ minutes = none ∧ seconds = none)

namespace TimePart
variable (time : TimePart)

def text (sign : List Char) : List Char :=
  component time.hours 'H' ++ (component time.minutes 'M' ++ secondsText sign time.seconds)

def total : Nat := 3600 * count time.hours + 60 * count time.minutes + time.seconds.elim 0 fun s => s.whole.value

def extraNanos : Nat := time.seconds.elim 0 fun s => s.fraction.elim 0 Digits.nanos

end TimePart

/-- A derivation from `'P' [n 'D'] ['T' ...]`, of at least one component. -/
structure Duration where
  days : Option Digits
  time : Option TimePart
  present : ¬ (days = none ∧ time = none)

namespace Duration
variable (duration : Duration)

/-- What it derives, with a sign in front of the whole seconds. -/
def text (sign : List Char) : List Char :=
  'P' :: (component duration.days 'D' ++ duration.time.elim [] fun time => 'T' :: time.text sign)

def totalSeconds : Nat := 86400 * count duration.days + duration.time.elim 0 TimePart.total

def nanos : Nat := duration.totalSeconds * 1000000000 + duration.time.elim 0 TimePart.extraNanos

end Duration

/-- The grammar derives the string, with a total of `t` nanoseconds that fits. -/
def Derivable (value : String) (t : Nat) : Prop :=
  ∃ duration : Duration, value.toList = duration.text [] ∧ duration.nanos = t ∧ t < u64Bound

/-- A derivable string, of a total that fits, but for one `+` in front of its whole seconds. -/
def SignedSeconds (value : String) : Prop :=
  ∃ duration : Duration, (∃ time ∈ duration.time, time.seconds.isSome) ∧ value.toList = duration.text ['+'] ∧
    duration.nanos < u64Bound

/-! ### Characters -/

theorem ne_of_isAsciiDigit {c other : Char} (h : isAsciiDigit c = true) (hother : isAsciiDigit other = false) :
    c ≠ other := by
  rintro rfl
  rw [h] at hother
  cases hother

theorem Digits.notMem (digits : Digits) {c : Char} (hc : isAsciiDigit c = false) : c ∉ digits.chars :=
  fun hmem => ne_of_isAsciiDigit (digits.ascii c hmem) hc rfl

theorem mem_component {run : Option Digits} {unit c : Char} (h : c ∈ component run unit) :
    isAsciiDigit c = true ∨ c = unit := by
  cases run with
  | none => simp [component] at h
  | some digits =>
    rcases List.mem_append.1 h with hdigit | hunit
    · exact Or.inl (digits.ascii c hdigit)
    · exact Or.inr (List.mem_singleton.1 hunit)

theorem mem_secondsText {sign : List Char} {seconds : Option Seconds} {c : Char} (h : c ∈ secondsText sign seconds) :
    isAsciiDigit c = true ∨ c ∈ sign ∨ c = '.' ∨ c = 'S' := by
  cases seconds with
  | none => simp [secondsText] at h
  | some s =>
    simp only [secondsText, Option.elim_some, List.mem_append, List.mem_singleton] at h
    rcases h with ((hsign | hwhole) | hfraction) | rfl
    · exact Or.inr (Or.inl hsign)
    · exact Or.inl (s.whole.ascii c hwhole)
    · cases hf : s.fraction with
      | none => simp [hf] at hfraction
      | some f =>
        rw [hf, Option.elim_some, List.mem_cons] at hfraction
        rcases hfraction with rfl | hdigit
        · exact Or.inr (Or.inr (Or.inl rfl))
        · exact Or.inl (f.ascii c hdigit)
    · exact Or.inr (Or.inr (Or.inr rfl))

theorem splitOnce_eq_none {sep : Char} : ∀ {text : List Char}, splitOnce sep text = none ↔ sep ∉ text
  | [] => by simp [splitOnce]
  | c :: text => by
    unfold splitOnce
    split_ifs with hc
    · simp [hc]
    · have ih : splitOnce sep text = none ↔ sep ∉ text := splitOnce_eq_none
      simp [ih, Ne.symm hc]

theorem splitOnce_eq_some {sep : Char} : ∀ {text before after : List Char},
    splitOnce sep text = some (before, after) ↔ text = before ++ sep :: after ∧ sep ∉ before
  | [], before, after => by simp [splitOnce]
  | c :: text, before, after => by
    unfold splitOnce
    split_ifs with hc
    · subst hc
      cases before with
      | nil => simp
      | cons head before =>
        refine iff_of_false (by simp) ?_
        rintro ⟨htext, hnot⟩
        exact hnot ((List.cons.inj htext).1 ▸ List.mem_cons_self)
    · cases before with
      | nil => simp [Option.map_eq_some_iff, hc]
      | cons head before =>
        rw [Option.map_eq_some_iff]
        constructor
        · rintro ⟨⟨before', after'⟩, hsplit, heq⟩
          simp only [Prod.mk.injEq, List.cons.injEq] at heq
          obtain ⟨⟨rfl, rfl⟩, rfl⟩ := heq
          obtain ⟨rfl, hnot⟩ := splitOnce_eq_some.1 hsplit
          exact ⟨rfl, by simp [hnot, Ne.symm hc]⟩
        · rintro ⟨htext, hnot⟩
          obtain ⟨rfl, rfl⟩ := List.cons.inj htext
          exact ⟨(before, after), splitOnce_eq_some.2 ⟨rfl, fun h => hnot (List.mem_cons_of_mem _ h)⟩, rfl⟩

/-! ### Components -/

theorem parseU64_eq_some {text : List Char} {n : Nat} : parseU64 text = some n ↔
    ∃ (digits : Digits) (sign : List Char), sign ∈ [[], ['+']] ∧ text = sign ++ digits.chars ∧ digits.value = n ∧
      n < u64Bound := by
  have hrun : ∀ run : List Char, (if run = [] ∨ run.all isAsciiDigit = false then none
      else if digitsValue run < u64Bound then some (digitsValue run) else none) = some n ↔
        ∃ digits : Digits, run = digits.chars ∧ digits.value = n ∧ n < u64Bound := by
    intro run
    constructor
    · intro h
      split_ifs at h with hdigits hbound
      obtain rfl := Option.some.inj h
      rw [not_or, Bool.not_eq_false, List.all_eq_true] at hdigits
      exact ⟨⟨run, hdigits.1, hdigits.2⟩, rfl, rfl, hbound⟩
    · rintro ⟨digits, rfl, rfl, hbound⟩
      have hascii : digits.chars.all isAsciiDigit = true := List.all_eq_true.2 digits.ascii
      rw [if_neg (by simp [digits.nonempty, hascii])]
      exact if_pos hbound
  have hplus : isAsciiDigit '+' = false := by decide
  unfold parseU64
  rw [hrun]
  constructor
  · rintro ⟨digits, htext, hvalue⟩
    split at htext
    · exact ⟨digits, ['+'], by simp, by rw [← htext]; rfl, hvalue⟩
    · exact ⟨digits, [], by simp, htext, hvalue⟩
  · rintro ⟨digits, sign, hsign, rfl, hvalue⟩
    refine ⟨digits, ?_, hvalue⟩
    simp only [List.mem_cons, List.not_mem_nil, or_false] at hsign
    rcases hsign with rfl | rfl
    · split
      · rename_i rest hrest
        have hmem : '+' ∈ [] ++ digits.chars := hrest ▸ List.mem_cons_self
        exact absurd hmem (digits.notMem hplus)
      · rfl
    · rfl

theorem parseU64_digits (digits : Digits) {n : Nat} :
    parseU64 digits.chars = some n ↔ digits.value = n ∧ n < u64Bound := by
  rw [parseU64_eq_some]
  constructor
  · rintro ⟨digits', sign, hsign, hchars, rfl, hbound⟩
    simp only [List.mem_cons, List.not_mem_nil, or_false] at hsign
    rcases hsign with rfl | rfl
    · exact ⟨congrArg digitsValue hchars, hbound⟩
    · exact absurd (by rw [hchars]; simp) (digits.notMem (show isAsciiDigit '+' = false by decide))
  · rintro ⟨rfl, hbound⟩
    exact ⟨digits, [], by simp, rfl, rfl, hbound⟩

theorem takeComponent_eq_ok {input : List Char} {unit : Char} (hunit : isAsciiDigit unit = false)
    {result : Option (Nat × List Char)} : takeComponent input unit = .ok result ↔
      ∃ run rest, input = component run unit ++ rest ∧ (run = none → unit ∉ rest) ∧ count run < u64Bound ∧
        result = run.map fun digits => (digits.value, rest) := by
  unfold takeComponent
  constructor
  · intro h
    cases hsplit : splitOnce unit input with
    | none =>
      rw [hsplit] at h
      obtain rfl := Except.ok.inj h
      exact ⟨none, input, rfl, fun _ => splitOnce_eq_none.1 hsplit, by decide, rfl⟩
    | some parts =>
      obtain ⟨before, rest⟩ := parts
      obtain ⟨rfl, -⟩ := splitOnce_eq_some.1 hsplit
      rw [hsplit] at h
      dsimp only at h
      split_ifs at h with hdigits
      rw [not_or, Bool.not_eq_false, List.all_eq_true] at hdigits
      obtain ⟨n, hn, h⟩ := bind_eq_ok.1 h
      obtain ⟨rfl, hbound⟩ := (parseU64_digits ⟨before, hdigits.1, hdigits.2⟩).1 (okOr_eq_ok.1 hn)
      obtain rfl := Except.ok.inj h
      exact ⟨some ⟨before, hdigits.1, hdigits.2⟩, rest, by simp [component], by simp, hbound, rfl⟩
  · rintro ⟨run, rest, rfl, habsent, hbound, rfl⟩
    cases run with
    | none =>
      have hsplit : splitOnce unit (component none unit ++ rest) = none := splitOnce_eq_none.2 (habsent rfl)
      rw [hsplit]
      rfl
    | some digits =>
      have hsplit : splitOnce unit (component (some digits) unit ++ rest) = some (digits.chars, rest) :=
        splitOnce_eq_some.2 ⟨by simp [component], digits.notMem hunit⟩
      have hascii : digits.chars.all isAsciiDigit = true := List.all_eq_true.2 digits.ascii
      have hparse : parseU64 digits.chars = some digits.value := (parseU64_digits digits).2 ⟨rfl, hbound⟩
      rw [hsplit]
      dsimp only
      rw [if_neg (by simp [digits.nonempty, hascii]), hparse]
      rfl

theorem takeTimeUnit_eq_ok {value : String} {total : Nat} {cursor : List Char} {unit : Char} {secondsPerUnit : Nat}
    (hunit : isAsciiDigit unit = false) (hpos : 0 < secondsPerUnit) (htotal : total < u64Bound) {total' : Nat}
    {rest : List Char} : takeTimeUnit value total cursor unit secondsPerUnit = .ok (total', rest) ↔
      ∃ run, cursor = component run unit ++ rest ∧ (run = none → unit ∉ rest) ∧
        total' = total + secondsPerUnit * count run ∧ total' < u64Bound := by
  unfold takeTimeUnit
  rw [bind_eq_ok]
  constructor
  · rintro ⟨result, hresult, h⟩
    obtain ⟨run, remainder, rfl, habsent, hbound, rfl⟩ := (takeComponent_eq_ok hunit).1 hresult
    cases run with
    | none =>
      obtain ⟨rfl, rfl⟩ := Prod.mk.inj (Except.ok.inj h)
      exact ⟨none, rfl, habsent, by simp [count], htotal⟩
    | some digits =>
      dsimp only [Option.map_some] at h
      simp only [bind_eq_ok, okOr_eq_ok] at h
      obtain ⟨seconds, hseconds, sum, hsum, h⟩ := h
      obtain ⟨rfl, rfl⟩ := Prod.mk.inj (Except.ok.inj h)
      obtain ⟨hlt, rfl⟩ := checkedAdd_eq_some.1 hsum
      obtain ⟨-, rfl⟩ := checkedMul_eq_some.1 hseconds
      exact ⟨some digits, rfl, habsent, by simp [count, Nat.mul_comm], hlt⟩
  · rintro ⟨run, rfl, habsent, rfl, hlt⟩
    have hcount : count run < u64Bound := by
      refine lt_of_le_of_lt ?_ hlt
      exact (Nat.le_mul_of_pos_left _ hpos).trans (Nat.le_add_left _ _)
    refine ⟨_, (takeComponent_eq_ok hunit).2 ⟨run, rest, rfl, habsent, hcount, rfl⟩, ?_⟩
    cases run with
    | none => rfl
    | some digits =>
      have hlt : total + digits.value * secondsPerUnit < u64Bound := by
        rw [Nat.mul_comm]
        exact hlt
      dsimp only [Option.map_some]
      rw [checkedMul_of_lt (by omega)]
      show okOr _ (checkedAdd total (digits.value * secondsPerUnit)) >>= _ = _
      rw [checkedAdd_of_lt hlt, Nat.mul_comm]
      rfl

/-! ### Seconds -/

theorem digitsValue_append_zeros (digits : List Char) (n : Nat) :
    digitsValue (digits ++ List.replicate n '0') = digitsValue digits * 10 ^ n := by
  show Nat.ofDigitChars 10 (digits ++ List.replicate n '0') 0 = Nat.ofDigitChars 10 digits 0 * 10 ^ n
  rw [Nat.ofDigitChars_append, Nat.ofDigitChars_replicate_zero, Nat.mul_comm]

theorem digit_lt {c : Char} (h : isAsciiDigit c = true) : c.toNat - '0'.toNat < 10 := by
  obtain ⟨hlow, hhigh⟩ : '0' ≤ c ∧ c ≤ '9' := by simpa [isAsciiDigit] using h
  have : c.toNat ≤ '9'.toNat := hhigh
  have hnine : '9'.toNat = 57 := rfl
  have hzero : '0'.toNat = 48 := rfl
  omega

theorem digitsValue_lt {digits : List Char} (h : ∀ c ∈ digits, isAsciiDigit c = true) :
    digitsValue digits < 10 ^ digits.length := by
  induction digits using List.reverseRecOn with
  | nil => decide
  | append_singleton digits c ih =>
    have hlt := ih fun d hd => h d (List.mem_append_left _ hd)
    have hc := digit_lt (h c (List.mem_append_right _ (List.mem_singleton_self c)))
    have hvalue : digitsValue (digits ++ [c]) = 10 * digitsValue digits + (c.toNat - '0'.toNat) := by
      simp [digitsValue, List.foldl_append]
    rw [hvalue, List.length_append, List.length_singleton, pow_succ]
    omega

namespace Digits

/-- Nine digits, with zeros behind those given. -/
def padded (digits : Digits) : Digits where
  chars := digits.chars ++ List.replicate (9 - digits.chars.length) '0'
  nonempty h := digits.nonempty (List.append_eq_nil_iff.1 h).1
  ascii c hc := by
    rcases List.mem_append.1 hc with hdigit | hzero
    · exact digits.ascii c hdigit
    · rw [(List.mem_replicate.1 hzero).2]
      decide

theorem value_padded (digits : Digits) : digits.padded.value = digits.nanos := digitsValue_append_zeros _ _

theorem nanos_lt {digits : Digits} (h : digits.chars.length ≤ 9) : digits.nanos < 1000000000 := by
  have hlength : digits.padded.chars.length = 9 := by simp [padded, h]
  have hlt := digitsValue_lt digits.padded.ascii
  rw [hlength] at hlt
  exact digits.value_padded ▸ hlt

end Digits

theorem parseSeconds_eq_ok {value : String} {text : List Char} {whole fraction : Nat} :
    parseSeconds value text = .ok (whole, fraction) ↔ ∃ (s : Seconds) (sign : List Char), sign ∈ [[], ['+']] ∧
      text = sign ++ s.whole.chars ++ (s.fraction.elim [] fun f => '.' :: f.chars) ∧ s.whole.value = whole ∧
        s.fraction.elim 0 Digits.nanos = fraction ∧ whole < u64Bound := by
  have hpoint : isAsciiDigit '.' = false := by decide
  unfold parseSeconds
  constructor
  · intro h
    split_ifs at h
    cases hsplit : splitOnce '.' text with
    | none =>
      rw [hsplit] at h
      obtain ⟨n, hn, h⟩ := bind_eq_ok.1 h
      obtain ⟨rfl, rfl⟩ := Prod.mk.inj (Except.ok.inj h)
      obtain ⟨digits, sign, hsign, rfl, rfl, hbound⟩ := parseU64_eq_some.1 (okOr_eq_ok.1 hn)
      exact ⟨⟨digits, none, by simp⟩, sign, hsign, by simp, rfl, rfl, hbound⟩
    | some parts =>
      obtain ⟨before, after⟩ := parts
      obtain ⟨rfl, -⟩ := splitOnce_eq_some.1 hsplit
      rw [hsplit] at h
      dsimp only at h
      split_ifs at h with hdigits hlong
      rw [not_or, Bool.not_eq_false, List.all_eq_true] at hdigits
      obtain ⟨padded, hpadded, h⟩ := bind_eq_ok.1 h
      obtain ⟨n, hn, h⟩ := bind_eq_ok.1 h
      obtain ⟨rfl, rfl⟩ := Prod.mk.inj (Except.ok.inj h)
      obtain ⟨digits, sign, hsign, rfl, rfl, hbound⟩ := parseU64_eq_some.1 (okOr_eq_ok.1 hn)
      have hfraction := (parseU64_digits (Digits.padded ⟨after, hdigits.1, hdigits.2⟩)).1
        (okOr_eq_ok.1 hpadded)
      refine ⟨⟨digits, some ⟨after, hdigits.1, hdigits.2⟩, ?_⟩, sign, hsign, by simp, rfl, ?_, hbound⟩
      · intro f hf
        obtain rfl := Option.some.inj hf
        exact Nat.le_of_not_lt hlong
      · exact (Digits.value_padded _).symm.trans hfraction.1
  · rintro ⟨⟨digits, fraction, hshort⟩, sign, hsign, rfl, rfl, rfl, hbound⟩
    have hparse : parseU64 (sign ++ digits.chars) = some digits.value :=
      parseU64_eq_some.2 ⟨digits, sign, hsign, rfl, rfl, hbound⟩
    have hnot : '.' ∉ sign ++ digits.chars := by
      rw [List.mem_append, not_or]
      refine ⟨?_, digits.notMem hpoint⟩
      simp only [List.mem_cons, List.not_mem_nil, or_false] at hsign
      rcases hsign with rfl | rfl <;> decide
    rw [if_neg (by simp [digits.nonempty])]
    cases fraction with
    | none =>
      simp only [Option.elim_none, List.append_nil]
      rw [splitOnce_eq_none.2 hnot, hparse]
      rfl
    | some f =>
      have hf := hshort f rfl
      have hascii : f.chars.all isAsciiDigit = true := List.all_eq_true.2 f.ascii
      have hsplit : splitOnce '.' (sign ++ digits.chars ++ '.' :: f.chars) = some (sign ++ digits.chars, f.chars) :=
        splitOnce_eq_some.2 ⟨rfl, hnot⟩
      have hpadded : parseU64 f.padded.chars = some f.nanos :=
        (parseU64_digits _).2 ⟨f.value_padded, (Digits.nanos_lt hf).trans (by decide)⟩
      simp only [Option.elim_some]
      rw [hsplit]
      dsimp only
      rw [if_neg (by simp [f.nonempty, hascii]), if_neg (by omega), show f.chars ++ _ = f.padded.chars from rfl, hpadded,
        hparse]
      rfl

/-! ### The two parts -/

theorem mem_of_optionalPlus {sign : List Char} (h : sign ∈ [[], ['+']]) {c : Char} (hc : c ∈ sign) : c = '+' := by
  simp only [List.mem_cons, List.not_mem_nil, or_false] at h
  rcases h with rfl | rfl
  · simp at hc
  · exact List.mem_singleton.1 hc

theorem notMem_secondsText {sign : List Char} (hsign : sign ∈ [[], ['+']]) {seconds : Option Seconds} {c : Char}
    (hdigit : isAsciiDigit c = false) (hplus : c ≠ '+') (hpoint : c ≠ '.') (hunit : c ≠ 'S') :
    c ∉ secondsText sign seconds := by
  intro h
  rcases mem_secondsText h with h | h | h | h
  · rw [h] at hdigit
    cases hdigit
  · exact hplus (mem_of_optionalPlus hsign h)
  · exact hpoint h
  · exact hunit h

theorem notMem_component {run : Option Digits} {unit c : Char} (hdigit : isAsciiDigit c = false) (hunit : c ≠ unit) :
    c ∉ component run unit := by
  intro h
  rcases mem_component h with h | h
  · rw [h] at hdigit
    cases hdigit
  · exact hunit h

theorem secondsText_getLast? (sign : List Char) (s : Seconds) : (secondsText sign (some s)).getLast? = some 'S' := by
  simp [secondsText]

theorem component_nil {run : Option Digits} {unit : Char} : component run unit = [] ↔ run = none := by
  cases run with
  | none => simp [component]
  | some digits => simp [component]

theorem parseSeconds_tail_eq_ok {value : String} {total : Nat} {cursor : List Char} (htotal : total < u64Bound)
    {result : Nat × Nat} :
    (if cursor.getLast? = some 'S' then do
        let (whole, fracNanos) ← parseSeconds value cursor.dropLast
        let total ← okOr (.badDuration value) (checkedAdd total whole)
        .ok (total, fracNanos)
      else if cursor = [] then .ok (total, 0)
      else .error (.badDuration value)) = .ok result ↔
    ∃ (seconds : Option Seconds) (sign : List Char), sign ∈ [[], ['+']] ∧ cursor = secondsText sign seconds ∧
      result = (total + (seconds.elim 0 fun s => s.whole.value),
        seconds.elim 0 fun s => s.fraction.elim 0 Digits.nanos) ∧ result.1 < u64Bound := by
  constructor
  · intro h
    split_ifs at h with hlast hnil
    · obtain ⟨⟨whole, fraction⟩, hparse, h⟩ := bind_eq_ok.1 h
      obtain ⟨sum, hsum, h⟩ := bind_eq_ok.1 h
      obtain rfl := Except.ok.inj h
      obtain ⟨hlt, rfl⟩ := checkedAdd_eq_some.1 (okOr_eq_ok.1 hsum)
      obtain ⟨s, sign, hsign, htext, rfl, rfl, -⟩ := parseSeconds_eq_ok.1 hparse
      refine ⟨some s, sign, hsign, ?_, rfl, hlt⟩
      obtain ⟨init, rfl⟩ := List.getLast?_eq_some_iff.1 hlast
      rw [List.dropLast_concat] at htext
      rw [htext]
      rfl
    · obtain rfl := Except.ok.inj h
      exact ⟨none, [], by simp, hnil, rfl, htotal⟩
  · rintro ⟨seconds, sign, hsign, rfl, rfl, hlt⟩
    cases seconds with
    | none => rfl
    | some s =>
      have hlt : total + s.whole.value < u64Bound := hlt
      have hparse : parseSeconds value (secondsText sign (some s)).dropLast =
          .ok (s.whole.value, s.fraction.elim 0 Digits.nanos) := by
        refine parseSeconds_eq_ok.2 ⟨s, sign, hsign, ?_, rfl, rfl, by omega⟩
        exact List.dropLast_concat
      rw [if_pos (secondsText_getLast? sign s), hparse, ok_bind]
      dsimp only
      rw [checkedAdd_of_lt hlt]
      rfl

theorem parseTimePart_eq_ok {value : String} {total : Nat} {text : List Char} (htotal : total < u64Bound)
    {result : Nat × Nat} : parseTimePart value total text = .ok result ↔
      ∃ (time : TimePart) (sign : List Char), sign ∈ [[], ['+']] ∧ text = time.text sign ∧
        result = (total + time.total, time.extraNanos) ∧ result.1 < u64Bound := by
  have hhours : isAsciiDigit 'H' = false := by decide
  have hminutes : isAsciiDigit 'M' = false := by decide
  unfold parseTimePart
  constructor
  · intro h
    split_ifs at h with hnil
    obtain ⟨⟨afterHours, cursor⟩, hstep, h⟩ := bind_eq_ok.1 h
    obtain ⟨hours, rfl, -, rfl, hlt⟩ := (takeTimeUnit_eq_ok hhours (by decide) htotal).1 hstep
    obtain ⟨⟨afterMinutes, cursor⟩, hstep, h⟩ := bind_eq_ok.1 h
    obtain ⟨minutes, rfl, -, rfl, hlt⟩ := (takeTimeUnit_eq_ok hminutes (by decide) hlt).1 hstep
    obtain ⟨seconds, sign, hsign, rfl, rfl, hlt⟩ := (parseSeconds_tail_eq_ok hlt).1 h
    refine ⟨⟨hours, minutes, seconds, ?_⟩, sign, hsign, rfl, ?_, hlt⟩
    · rintro ⟨rfl, rfl, rfl⟩
      exact hnil rfl
    · simp only [TimePart.total, TimePart.extraNanos, SECONDS_PER_HOUR, SECONDS_PER_MINUTE, Nat.add_assoc]
  · rintro ⟨⟨hours, minutes, seconds, hpresent⟩, sign, hsign, rfl, rfl, hlt⟩
    have hlt : total + (3600 * count hours + 60 * count minutes + seconds.elim 0 fun s => s.whole.value) < u64Bound := hlt
    have hnil : TimePart.text ⟨hours, minutes, seconds, hpresent⟩ sign ≠ [] := by
      intro hnil
      simp only [TimePart.text, List.append_eq_nil_iff, component_nil] at hnil
      refine hpresent ⟨hnil.1, hnil.2.1, ?_⟩
      cases seconds with
      | none => rfl
      | some s => simp [secondsText] at hnil
    have hsecond : 'M' ∉ secondsText sign seconds :=
      notMem_secondsText hsign hminutes (by decide) (by decide) (by decide)
    have hfirst : 'H' ∉ component minutes 'M' ++ secondsText sign seconds := by
      rw [List.mem_append, not_or]
      exact ⟨notMem_component hhours (by decide), notMem_secondsText hsign hhours (by decide) (by decide) (by decide)⟩
    have hltHours : total + SECONDS_PER_HOUR * count hours < u64Bound := by
      simp only [SECONDS_PER_HOUR]
      omega
    have hltMinutes : total + SECONDS_PER_HOUR * count hours + SECONDS_PER_MINUTE * count minutes < u64Bound := by
      simp only [SECONDS_PER_HOUR, SECONDS_PER_MINUTE]
      omega
    rw [if_neg hnil]
    refine bind_eq_ok.2 ⟨(_, component minutes 'M' ++ secondsText sign seconds),
      (takeTimeUnit_eq_ok hhours (by decide) htotal).2 ⟨hours, rfl, fun _ => hfirst, rfl, hltHours⟩, ?_⟩
    refine bind_eq_ok.2 ⟨(_, secondsText sign seconds),
      (takeTimeUnit_eq_ok hminutes (by decide) hltHours).2 ⟨minutes, rfl, fun _ => hsecond, rfl, hltMinutes⟩, ?_⟩
    refine (parseSeconds_tail_eq_ok hltMinutes).2 ⟨seconds, sign, hsign, rfl, ?_, hlt⟩
    simp only [TimePart.total, TimePart.extraNanos, SECONDS_PER_HOUR, SECONDS_PER_MINUTE, Nat.add_assoc]

theorem parseDatePart_eq_ok {value : String} {text : List Char} {total : Nat} :
    parseDatePart value text = .ok total ↔
      ∃ days, text = component days 'D' ∧ total = 86400 * count days ∧ total < u64Bound := by
  have hdays : isAsciiDigit 'D' = false := by decide
  unfold parseDatePart
  rw [bind_eq_ok]
  constructor
  · rintro ⟨result, hresult, h⟩
    obtain ⟨days, rest, rfl, -, -, rfl⟩ := (takeComponent_eq_ok hdays).1 hresult
    cases days with
    | none =>
      dsimp only [Option.map_none] at h
      split_ifs at h with hnil
      obtain rfl := Except.ok.inj h
      exact ⟨none, hnil, rfl, by decide⟩
    | some digits =>
      obtain ⟨seconds, hseconds, h⟩ := bind_eq_ok.1 h
      split_ifs at h with hnil
      obtain rfl := Except.ok.inj h
      obtain ⟨hlt, rfl⟩ := checkedMul_eq_some.1 (okOr_eq_ok.1 hseconds)
      exact ⟨some digits, by rw [hnil, List.append_nil], Nat.mul_comm _ _, hlt⟩
  · rintro ⟨days, rfl, rfl, hlt⟩
    refine ⟨_, (takeComponent_eq_ok hdays).2 ⟨days, [], (List.append_nil _).symm, by simp, by omega, rfl⟩, ?_⟩
    cases days with
    | none => rfl
    | some digits =>
      have hlt : digits.value * SECONDS_PER_DAY < u64Bound := by
        rw [Nat.mul_comm]
        exact hlt
      dsimp only [Option.map_some]
      rw [checkedMul_of_lt hlt, Nat.mul_comm]
      rfl

/-! ### The parser -/

theorem checkedNanos_eq_some {seconds extra t : Nat} :
    ((checkedMul seconds NANOS_PER_SECOND).bind fun nanos => checkedAdd nanos extra) = some t ↔
      seconds * 1000000000 + extra = t ∧ t < u64Bound := by
  rw [Option.bind_eq_some_iff, show NANOS_PER_SECOND = 1000000000 from rfl]
  constructor
  · rintro ⟨product, hproduct, hsum⟩
    obtain ⟨-, rfl⟩ := checkedMul_eq_some.1 hproduct
    obtain ⟨hlt, rfl⟩ := checkedAdd_eq_some.1 hsum
    exact ⟨rfl, hlt⟩
  · rintro ⟨rfl, hlt⟩
    have hproduct : seconds * 1000000000 < u64Bound := (Nat.le_add_right _ _).trans_lt hlt
    exact ⟨_, checkedMul_eq_some.2 ⟨hproduct, rfl⟩, checkedAdd_eq_some.2 ⟨hlt, rfl⟩⟩

theorem Duration.nanos_date {days : Option Digits} (hpresent : ¬ (days = none ∧ (none : Option TimePart) = none)) :
    86400 * count days * 1000000000 + 0 = (Duration.mk days none hpresent).nanos := by
  simp only [Duration.nanos, Duration.totalSeconds, Option.elim_none, Nat.add_zero]

theorem Duration.nanos_time {days : Option Digits} {time : TimePart} (hpresent : ¬ (days = none ∧ some time = none)) :
    (86400 * count days + time.total) * 1000000000 + time.extraNanos = (Duration.mk days (some time) hpresent).nanos := by
  simp only [Duration.nanos, Duration.totalSeconds, Option.elim_some]

/-- The parser takes what the grammar derives, with or without a `+` in front of the whole seconds. -/
theorem parseIso8601DurationNanos_eq_ok {value : String} {t : Nat} : parseIso8601DurationNanos value = .ok t ↔
    ∃ (duration : Duration) (sign : List Char), sign ∈ [[], ['+']] ∧ value.toList = duration.text sign ∧
      duration.nanos = t ∧ t < u64Bound := by
  unfold parseIso8601DurationNanos
  constructor
  · intro h
    split at h
    · rename_i rest hvalue
      split_ifs at h with hrest
      cases hsplit : splitOnce 'T' rest with
      | none =>
        rw [hsplit] at h
        dsimp only at h
        split_ifs at h
        obtain ⟨date, hdate, h⟩ := bind_eq_ok.1 h
        obtain ⟨days, rfl, rfl, -⟩ := parseDatePart_eq_ok.1 hdate
        rw [ok_bind, okOr_eq_ok] at h
        obtain ⟨rfl, hlt⟩ := checkedNanos_eq_some.1 h
        have hpresent : ¬ (days = none ∧ (none : Option TimePart) = none) := fun hnone => hrest (component_nil.2 hnone.1)
        exact ⟨⟨days, none, hpresent⟩, [], by simp, by simp [Duration.text, hvalue], (Duration.nanos_date hpresent).symm, hlt⟩
      | some parts =>
        obtain ⟨before, after⟩ := parts
        obtain ⟨rfl, -⟩ := splitOnce_eq_some.1 hsplit
        rw [hsplit] at h
        dsimp only at h
        split_ifs at h
        obtain ⟨date, hdate, h⟩ := bind_eq_ok.1 h
        obtain ⟨result, htime, h⟩ := bind_eq_ok.1 h
        obtain ⟨days, rfl, rfl, hdateLt⟩ := parseDatePart_eq_ok.1 hdate
        obtain ⟨time, sign, hsign, rfl, rfl, -⟩ := (parseTimePart_eq_ok hdateLt).1 htime
        rw [okOr_eq_ok] at h
        obtain ⟨rfl, hlt⟩ := checkedNanos_eq_some.1 h
        exact ⟨⟨days, some time, by simp⟩, sign, hsign, by simp [Duration.text, hvalue],
          (Duration.nanos_time _).symm, hlt⟩
    · cases h
  · rintro ⟨⟨days, time, hpresent⟩, sign, hsign, hvalue, rfl, hlt⟩
    have hmonth : 'M' ∉ component days 'D' := notMem_component (by decide) (by decide)
    have hsplitAt : 'T' ∉ component days 'D' := notMem_component (by decide) (by decide)
    have hyear : 'Y' ∉ component days 'D' := notMem_component (by decide) (by decide)
    rw [hvalue, Duration.text]
    cases time with
    | none =>
      have hrest : component days 'D' ≠ [] := fun hnil => hpresent ⟨component_nil.1 hnil, rfl⟩
      rw [← Duration.nanos_date hpresent] at hlt ⊢
      have hdate : parseDatePart value (component days 'D') = .ok (86400 * count days) :=
        parseDatePart_eq_ok.2 ⟨days, rfl, rfl, by omega⟩
      simp only [Option.elim_none, List.append_nil]
      rw [if_neg hrest, if_neg hyear, splitOnce_eq_none.2 hsplitAt]
      dsimp only
      rw [if_neg hmonth, hdate, ok_bind, ok_bind, okOr_eq_ok]
      exact checkedNanos_eq_some.2 ⟨rfl, hlt⟩
    | some time =>
      rw [← Duration.nanos_time hpresent] at hlt ⊢
      have hdate : parseDatePart value (component days 'D') = .ok (86400 * count days) :=
        parseDatePart_eq_ok.2 ⟨days, rfl, rfl, by omega⟩
      have htime : parseTimePart value (86400 * count days) (time.text sign) =
          .ok (86400 * count days + time.total, time.extraNanos) :=
        (parseTimePart_eq_ok (by omega)).2 ⟨time, sign, hsign, rfl, rfl, show _ < _ by omega⟩
      have hsplit : splitOnce 'T' (component days 'D' ++ 'T' :: time.text sign) =
          some (component days 'D', time.text sign) := splitOnce_eq_some.2 ⟨rfl, hsplitAt⟩
      have hyearTime : 'Y' ∉ component days 'D' ++ 'T' :: time.text sign := by
        rw [List.mem_append, List.mem_cons, TimePart.text, List.mem_append, List.mem_append]
        simp only [not_or]
        exact ⟨hyear, by decide, notMem_component (by decide) (by decide), notMem_component (by decide) (by decide),
          notMem_secondsText hsign (by decide) (by decide) (by decide) (by decide)⟩
      simp only [Option.elim_some]
      rw [if_neg (by simp), if_neg hyearTime, hsplit]
      dsimp only
      rw [if_neg hmonth, hdate, ok_bind, htime, ok_bind, okOr_eq_ok]
      exact checkedNanos_eq_some.2 ⟨rfl, hlt⟩

theorem Duration.plus_notMem (duration : Duration) : '+' ∉ duration.text [] := by
  intro h
  rw [Duration.text, List.mem_cons, List.mem_append] at h
  rcases h with h | h | h
  · exact absurd h (by decide)
  · exact notMem_component (by decide) (by decide) h
  · cases htime : duration.time with
    | none => simp [htime] at h
    | some time =>
      rw [htime, Option.elim_some, List.mem_cons, TimePart.text, List.mem_append, List.mem_append] at h
      rcases h with h | h | h | h
      · exact absurd h (by decide)
      · exact notMem_component (by decide) (by decide) h
      · exact notMem_component (by decide) (by decide) h
      · rcases mem_secondsText h with h | h | h | h
        · exact absurd h (by decide)
        · simp at h
        · exact absurd h (by decide)
        · exact absurd h (by decide)

theorem Duration.text_of_no_seconds {duration : Duration} (h : ¬ ∃ time ∈ duration.time, time.seconds.isSome)
    (sign : List Char) : duration.text sign = duration.text [] := by
  unfold Duration.text
  cases htime : duration.time with
  | none => rfl
  | some time =>
    have hseconds : time.seconds = none := by
      rw [← Option.not_isSome_iff_eq_none]
      exact fun hsome => h ⟨time, htime, hsome⟩
    simp only [Option.elim_some, TimePart.text, hseconds, secondsText, Option.elim_none]

/-- **The parser decides the grammar on every string but those with a `+` in front of the whole seconds.** -/
theorem duration_grammar_exact_iff (value : String) :
    (∀ t, parseIso8601DurationNanos value = .ok t ↔ Derivable value t) ↔ ¬ SignedSeconds value := by
  constructor
  · rintro hexact ⟨duration, ⟨time, htime, hsome⟩, hvalue, hlt⟩
    have hparse : parseIso8601DurationNanos value = .ok duration.nanos :=
      parseIso8601DurationNanos_eq_ok.2 ⟨duration, ['+'], by simp, hvalue, rfl, hlt⟩
    obtain ⟨derived, htext, -, -⟩ := (hexact _).1 hparse
    refine derived.plus_notMem (htext ▸ hvalue ▸ ?_)
    obtain ⟨s, hs⟩ := Option.isSome_iff_exists.1 hsome
    simp [Duration.text, Option.mem_def.1 htime, TimePart.text, secondsText, hs]
  · intro hunsigned t
    rw [parseIso8601DurationNanos_eq_ok]
    constructor
    · rintro ⟨duration, sign, hsign, hvalue, rfl, hlt⟩
      refine ⟨duration, ?_, rfl, hlt⟩
      by_cases hseconds : ∃ time ∈ duration.time, time.seconds.isSome
      · simp only [List.mem_cons, List.not_mem_nil, or_false] at hsign
        rcases hsign with rfl | rfl
        · exact hvalue
        · exact absurd ⟨duration, hseconds, hvalue, hlt⟩ hunsigned
      · rw [hvalue, Duration.text_of_no_seconds hseconds]
    · rintro ⟨duration, hvalue, rfl, hlt⟩
      exact ⟨duration, [], by simp, hvalue, rfl, hlt⟩

theorem signed_seconds_accepted :
    ¬ ∀ (value : String) (t : Nat), parseIso8601DurationNanos value = .ok t ↔ Derivable value t := by
  intro h
  obtain ⟨duration, htext, -, -⟩ := (h "PT+5S" 5000000000).1 (by decide)
  have hplus : '+' ∈ "PT+5S".toList := by decide
  exact duration.plus_notMem (htext ▸ hplus)

end AhlMirror
