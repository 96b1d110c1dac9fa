import AhlMirror.Model.Symbolic

/-!
# Checkpoint times

A checkpoint time is text, sorted as text in three places and compared as a number in one. The two agree:
each `u64` of nanoseconds has one spelling, each accepted spelling one value, and the order of the spellings
is that of the values, since every field of the calendar is written in a fixed width, the weightiest first.
Every character of an accepted spelling is ASCII, so its characters sort as its octets do.
-/

namespace AhlMirror

open AhlMirror.Core

variable {H K : Type} {crates : Crates H K}

/-! ### The shape -/

/-- What the shape check asks of a character at a position. -/
def fitsShape (place : Char × Nat) : Bool :=
  match CHECKPOINT_TIME_LITERALS.find? fun literal => literal.1 == place.2 with
  | some literal => place.1 == literal.2
  | none => place.1.isDigit

theorem fitsShape_digits {width n position : Nat}
    (hfree : ∀ i < width, CHECKPOINT_TIME_LITERALS.find? (fun literal => literal.1 == position + i) = none) :
    ((fixed width n).zipIdx position).all fitsShape = true := by
  refine List.all_eq_true.2 fun place hplace => ?_
  obtain ⟨c, i⟩ := place
  obtain ⟨hlow, hhigh, hget⟩ := List.mem_zipIdx hplace
  rw [length_fixed] at hhigh
  have hliteral := hfree (i - position) (by omega)
  rw [Nat.add_sub_cancel' hlow] at hliteral
  simp only [fitsShape, hliteral]
  exact isDigit_of_mem_fixed (hget ▸ List.getElem_mem _)

theorem hasProfileTimeShape_eq (value : String) : hasProfileTimeShape value =
    (value.toList.length == CHECKPOINT_TIME_LEN && value.toList.zipIdx.all fitsShape) := rfl

theorem hasProfileTimeShape_profileText (t : CivilTime) : hasProfileTimeShape (profileText t) = true := by
  rw [hasProfileTimeShape_eq, profileText, String.toList_ofList, Bool.and_eq_true]
  constructor
  · simp [CHECKPOINT_TIME_LEN]
  · simp only [List.zipIdx_append, List.zipIdx_cons, List.zipIdx_nil, List.all_append, List.all_cons, List.all_nil,
      length_fixed, Bool.and_eq_true]
    exact ⟨fitsShape_digits (by decide), by decide, fitsShape_digits (by decide), by decide,
      fitsShape_digits (by decide), by decide, fitsShape_digits (by decide), by decide, fitsShape_digits (by decide),
      by decide, fitsShape_digits (by decide), by decide, fitsShape_digits (by decide), by decide, trivial⟩

theorem parseCheckpointTime_shape (parser : String → Option Int)
    (h : ∀ value, hasProfileTimeShape value = true → parser value = crates.parsePrimitiveDateTime value)
    (value : String) :
    parseCheckpointTime { crates with parsePrimitiveDateTime := parser } value = parseCheckpointTime crates value := by
  unfold parseCheckpointTime
  cases hshape : hasProfileTimeShape value with
  | false => rfl
  | true => simp only [h value hshape, renderCheckpointTime]

/-! ### The order of the text -/

theorem fixed_append_lt_iff {width n n' : Nat} (hn : n < 10 ^ width) (hn' : n' < 10 ^ width) (c : Char)
    (rest rest' : List Char) :
    fixed width n ++ c :: rest < fixed width n' ++ c :: rest' ↔ n < n' ∨ n = n' ∧ rest < rest' := by
  have hsame : fixed width n = fixed width n' ↔ n = n' := ⟨fixed_injective hn hn', fun h => h ▸ rfl⟩
  rw [append_lt_append_iff _ _ (by simp), fixed_lt_iff hn hn', hsame, List.cons_lt_cons_self]

theorem profileText_lt_iff {t t' : CivilTime} (hyear : t.year ≤ 9999) (hyear' : t'.year ≤ 9999) :
    profileText t < profileText t' ↔ t.fields < t'.fields := by
  have hmonth := t.month_le
  have hmonth' := t'.month_le
  have hday := t.day_le.trans (monthLength_le _ _)
  have hday' := t'.day_le.trans (monthLength_le _ _)
  have hhour := t.hour_lt
  have hhour' := t'.hour_lt
  have hminute := t.minute_lt
  have hminute' := t'.minute_lt
  have hsecond := t.second_lt
  have hsecond' := t'.second_lt
  rw [String.lt_iff, profileText, profileText, String.toList_ofList, String.toList_ofList,
    fixed_append_lt_iff (by omega) (by omega), fixed_append_lt_iff (by omega) (by omega),
    fixed_append_lt_iff (by omega) (by omega), fixed_append_lt_iff (by omega) (by omega),
    fixed_append_lt_iff (by omega) (by omega), fixed_append_lt_iff (by omega) (by omega),
    fixed_append_lt_iff t.nanosecond_lt t'.nanosecond_lt]
  simp only [CivilTime.fields, List.cons_lt_cons_iff, List.not_lt_nil]

/-! ### Rendering and parsing -/

/-- The civil time of a `u64` of nanoseconds. -/
def ofUnixNanos (n : Nat) : CivilTime := CivilTime.ofInstant (n + unixEpoch)

theorem instant_ofUnixNanos (n : Nat) : ((ofUnixNanos n).instant : Int) - unixEpoch = n := by
  rw [ofUnixNanos, CivilTime.instant_ofInstant, Int.natCast_add, Int.add_sub_cancel]

example : profileText (ofUnixNanos 951827696789000000) = "2000-02-29T12:34:56.789000000Z" := by decide +kernel

theorem unixEpochDay_add_le (years : Nat) : unixEpochDay + 365 * years ≤ offset yearLength (1970 + years) := by
  unfold unixEpochDay
  exact offset_add_ge yearLength_ge 1970 years

theorem year_ofUnixNanos {n : Nat} (h : n < u64Bound) : (ofUnixNanos n).year ≤ 9999 := by
  have hdays : (n + unixEpoch) / 1000000000 / 86400 < unixEpochDay + 365 * 8030 := by
    have : n < 2 ^ 64 := h
    unfold unixEpoch
    omega
  exact Nat.le_of_lt_succ (CivilTime.year_ofInstant_lt (hdays.trans_le (unixEpochDay_add_le 8030)))

section laws
variable (hlaws : TimeLaws crates)
include hlaws

theorem renderCheckpointTime_eq {n : Nat} (h : n < u64Bound) :
    renderCheckpointTime crates n = .ok (profileText (ofUnixNanos n)) := by
  have hformat := hlaws.format (ofUnixNanos n) (year_ofUnixNanos h)
  rw [instant_ofUnixNanos] at hformat
  rw [renderCheckpointTime, hformat]
  rfl

theorem parseCheckpointTime_rendered {n : Nat} (h : n < u64Bound) :
    parseCheckpointTime crates (profileText (ofUnixNanos n)) = .ok n := by
  have hparse := hlaws.parse (ofUnixNanos n) (year_ofUnixNanos h)
  rw [instant_ofUnixNanos] at hparse
  unfold parseCheckpointTime
  dsimp only
  rw [hasProfileTimeShape_profileText, if_neg (by decide), hparse, okOr_eq_ok.2 rfl, ok_bind, if_neg (by omega),
    Int.toNat_natCast, renderCheckpointTime_eq hlaws h, ok_bind, if_neg (not_not.2 rfl)]

theorem parseCheckpointTime_eq_ok {value : String} {n : Nat} : parseCheckpointTime crates value = .ok n ↔
    n < u64Bound ∧ value = profileText (ofUnixNanos n) := by
  constructor
  · intro h
    unfold parseCheckpointTime at h
    dsimp only at h
    split_ifs at h
    obtain ⟨nanos, -, h⟩ := bind_eq_ok.1 h
    split_ifs at h with hrange
    obtain ⟨rendered, hrendered, h⟩ := bind_eq_ok.1 h
    split_ifs at h with hsame
    obtain rfl := Except.ok.inj h
    have hlt : nanos.toNat < u64Bound := by omega
    rw [renderCheckpointTime_eq hlaws hlt] at hrendered
    exact ⟨hlt, (not_not.1 hsame).symm.trans (Except.ok.inj hrendered).symm⟩
  · rintro ⟨hlt, rfl⟩
    exact parseCheckpointTime_rendered hlaws hlt

theorem checkpointTime_le_iff {s₁ s₂ : String} {n₁ n₂ : Nat} (h₁ : parseCheckpointTime crates s₁ = .ok n₁)
    (h₂ : parseCheckpointTime crates s₂ = .ok n₂) : s₁ ≤ s₂ ↔ n₁ ≤ n₂ := by
  obtain ⟨hlt₁, rfl⟩ := (parseCheckpointTime_eq_ok hlaws).1 h₁
  obtain ⟨hlt₂, rfl⟩ := (parseCheckpointTime_eq_ok hlaws).1 h₂
  rw [← not_lt, profileText_lt_iff (year_ofUnixNanos hlt₂) (year_ofUnixNanos hlt₁), ← CivilTime.instant_orderedBy,
    ofUnixNanos, ofUnixNanos, CivilTime.instant_ofInstant, CivilTime.instant_ofInstant]
  omega

/-- **Checkpoint times are a faithful, order-preserving encoding.** -/
theorem checkpoint_times_faithful :
    (∀ n < u64Bound, ∃ s, renderCheckpointTime crates n = .ok s ∧ parseCheckpointTime crates s = .ok n) ∧
      (∀ s n, parseCheckpointTime crates s = .ok n → n < u64Bound ∧ renderCheckpointTime crates n = .ok s) ∧
      (∀ s₁ s₂ n₁ n₂, parseCheckpointTime crates s₁ = .ok n₁ → parseCheckpointTime crates s₂ = .ok n₂ →
        (s₁ ≤ s₂ ↔ n₁ ≤ n₂)) ∧
      (∀ a b : Checkpoint, ∀ n₁ n₂, parseCheckpointTime crates a.checkpointTime = .ok n₁ →
        parseCheckpointTime crates b.checkpointTime = .ok n₂ →
          (seriesLE a b ↔ a.treeSize < b.treeSize ∨ a.treeSize = b.treeSize ∧ n₁ ≤ n₂)) ∧
      ∀ parser : String → Option Int,
        (∀ value, hasProfileTimeShape value = true → parser value = crates.parsePrimitiveDateTime value) →
          ∀ value, parseCheckpointTime { crates with parsePrimitiveDateTime := parser } value =
            parseCheckpointTime crates value := by
  refine ⟨fun n hn => ⟨_, renderCheckpointTime_eq hlaws hn, parseCheckpointTime_rendered hlaws hn⟩, fun s n h => ?_,
    fun s₁ s₂ n₁ n₂ => checkpointTime_le_iff hlaws, fun a b n₁ n₂ h₁ h₂ => ?_, parseCheckpointTime_shape⟩
  · obtain ⟨hlt, rfl⟩ := (parseCheckpointTime_eq_ok hlaws).1 h
    exact ⟨hlt, renderCheckpointTime_eq hlaws hlt⟩
  · rw [seriesLE, checkpointTime_le_iff hlaws h₁ h₂]

end laws

theorem checkpoint_times_faithful_last : ∃ s, renderCheckpointTime (Symbolic.civilCrates []) 18446744073709551615 = .ok s ∧
    parseCheckpointTime (Symbolic.civilCrates []) s = .ok 18446744073709551615 :=
  (checkpoint_times_faithful (Symbolic.timeLaws [])).1 _ (by decide)

end AhlMirror
