import SecureMcp.Lib.Decimal

set_option autoImplicit false

/-! # Dates and their text

A time is a number of milliseconds since 1970-01-01T00:00Z. Its date in the Gregorian calendar is
computed from the number of the day within a cycle of 400 years, which begins on the first of March
so that the leap day is the last one. The text is the one of `toISOString`; it determines the time
(`toISOString_injective`). -/

namespace Calendar

structure Date where
  year : Int
  month : Nat
  day : Nat
deriving DecidableEq, Repr

/-! ## Within a cycle

`146097` days make 400 years. -/

/-- The century of a day; the last day of the cycle belongs to the fourth one. -/
def centuryOfCycle (day : Nat) : Nat := min (day / 36524) 3

/-- The group of four years, counted from the start of the century. -/
def groupOfCentury (day : Nat) : Nat := day / 1461

/-- The year of a day of such a group, whose last day belongs to the fourth one. -/
def yearOfGroup (day : Nat) : Nat := min (day / 365) 3

/-- The year of a day, counted from the start of the cycle. -/
def yearOfCycle (day : Nat) : Nat :=
  let century := centuryOfCycle day
  let dayOfCentury := day - 36524 * century
  let group := groupOfCentury dayOfCentury
  100 * century + 4 * group + yearOfGroup (dayOfCentury - 1461 * group)

/-- The first day of a year of the cycle. -/
def startOfYear (year : Nat) : Nat := 365 * year + year / 4 - year / 100

/-- The month of a day of the year; March is `0`. -/
def monthOfYear (day : Nat) : Nat := (5 * day + 2) / 153

/-- The first day of a month. -/
def startOfMonth (month : Nat) : Nat := (153 * month + 2) / 5

theorem startOfYear_eq (century : Nat) {group year : Nat} (hgroup : group < 25) (hyear : year < 4) :
    startOfYear (100 * century + 4 * group + year) = 36524 * century + 1461 * group + 365 * year := by
  unfold startOfYear
  omega

theorem yearOfCycle_spec {day : Nat} (h : day < 146097) :
    yearOfCycle day < 400 ∧ startOfYear (yearOfCycle day) ≤ day ∧
      day ≤ startOfYear (yearOfCycle day) + 365 := by
  simp only [yearOfCycle]
  have hcentury : centuryOfCycle day < 4 ∧ 36524 * centuryOfCycle day ≤ day ∧
      day - 36524 * centuryOfCycle day ≤ 36524 := by
    unfold centuryOfCycle
    omega
  generalize centuryOfCycle day = century at hcentury ⊢
  generalize hdayOfCentury : day - 36524 * century = dayOfCentury at hcentury ⊢
  have hgroup : groupOfCentury dayOfCentury < 25 ∧
      1461 * groupOfCentury dayOfCentury ≤ dayOfCentury ∧
      dayOfCentury - 1461 * groupOfCentury dayOfCentury ≤ 1460 := by
    unfold groupOfCentury
    omega
  generalize groupOfCentury dayOfCentury = group at hgroup ⊢
  generalize hdayOfGroup : dayOfCentury - 1461 * group = dayOfGroup at hgroup ⊢
  have hyear : yearOfGroup dayOfGroup < 4 ∧ 365 * yearOfGroup dayOfGroup ≤ dayOfGroup ∧
      dayOfGroup - 365 * yearOfGroup dayOfGroup ≤ 365 := by
    unfold yearOfGroup
    omega
  rw [startOfYear_eq century hgroup.1 hyear.1]
  omega

theorem monthOfYear_le {day : Nat} (h : day ≤ 365) : monthOfYear day ≤ 11 := by
  unfold monthOfYear
  omega

theorem startOfMonth_le (day : Nat) : startOfMonth (monthOfYear day) ≤ day := by
  unfold startOfMonth monthOfYear
  omega

/-- The month as it is numbered, from January. -/
def monthNumber (month : Nat) : Nat := if month < 10 then month + 3 else month - 9

theorem monthNumber_injective {m n : Nat} (hm : m ≤ 11) (hn : n ≤ 11)
    (h : monthNumber m = monthNumber n) : m = n := by
  unfold monthNumber at h
  split at h <;> split at h <;> omega

/-! ## Dates -/

/-- The date of a day, counted from 1970-01-01. -/
def dateOfDay (day : Int) : Date :=
  let shifted := day + 719468
  let dayOfCycle := (shifted % 146097).toNat
  let year := yearOfCycle dayOfCycle
  let dayOfYear := dayOfCycle - startOfYear year
  let month := monthOfYear dayOfYear
  { year := shifted / 146097 * 400 + year + (if month < 10 then 0 else 1)
    month := monthNumber month
    day := dayOfYear - startOfMonth month + 1 }

theorem dayOfCycle_lt (day : Int) : ((day + 719468) % 146097).toNat < 146097 := by omega

theorem dateOfDay_injective {a b : Int} (h : dateOfDay a = dateOfDay b) : a = b := by
  have ha := dayOfCycle_lt a
  have hb := dayOfCycle_lt b
  obtain ⟨hyear, hmonth, hday⟩ := Date.mk.inj h
  obtain ⟨hlt, hstart⟩ := yearOfCycle_spec ha
  obtain ⟨hlt', hstart'⟩ := yearOfCycle_spec hb
  have hmonth := monthNumber_injective (monthOfYear_le (by omega)) (monthOfYear_le (by omega)) hmonth
  have hle := startOfMonth_le (((a + 719468) % 146097).toNat -
    startOfYear (yearOfCycle ((a + 719468) % 146097).toNat))
  have hle' := startOfMonth_le (((b + 719468) % 146097).toNat -
    startOfYear (yearOfCycle ((b + 719468) % 146097).toNat))
  rw [hmonth] at hyear hday hle
  -- the cycles agree, then the years of the cycle, then the days of the year
  have hcycle : (a + 719468) / 146097 = (b + 719468) / 146097 ∧
      yearOfCycle ((a + 719468) % 146097).toNat = yearOfCycle ((b + 719468) % 146097).toNat := by
    omega
  rw [hcycle.2] at hday hle hstart
  omega

/-- A month and a day have two digits. -/
theorem dateOfDay_bounds (day : Int) : (dateOfDay day).month < 100 ∧ (dateOfDay day).day < 100 := by
  have hstart := (yearOfCycle_spec (dayOfCycle_lt day)).2
  have hle : ((day + 719468) % 146097).toNat -
      startOfYear (yearOfCycle ((day + 719468) % 146097).toNat) ≤ 365 := by omega
  have hmonth := monthOfYear_le hle
  constructor
  · show monthNumber _ < 100
    unfold monthNumber
    split <;> omega
  · show _ - startOfMonth (monthOfYear _) + 1 < 100
    unfold startOfMonth monthOfYear
    omega

/-! ## The text -/

/-- The year: four digits, or a sign and at least six of them. -/
def yearText (year : Int) : JsString :=
  match year with
  | .ofNat n => if n ≤ 9999 then JsString.padStart 4 n else 0x2B :: JsString.padStart 6 n
  | .negSucc n => 0x2D :: JsString.padStart 6 (n + 1)

/-- A separator, and a number with leading zeros. -/
structure Field where
  separator : UInt16
  width : Nat
  value : Nat

def Field.text (field : Field) : JsString := field.separator :: JsString.padStart field.width field.value

def Field.Fits (field : Field) : Prop := 0 < field.width ∧ field.value < 10 ^ field.width

/-- What follows the year, but for the `Z`. -/
def fields (time : Int) : List Field :=
  let date := dateOfDay (time / 86400000)
  let rest := (time % 86400000).toNat
  [⟨0x2D, 2, date.month⟩, ⟨0x2D, 2, date.day⟩, ⟨0x54, 2, rest / 3600000⟩, ⟨0x3A, 2, rest / 60000 % 60⟩,
    ⟨0x3A, 2, rest / 1000 % 60⟩, ⟨0x2E, 3, rest % 1000⟩]

/-- `new Date(time).toISOString()`. -/
def toISOString (time : Int) : JsString :=
  yearText (dateOfDay (time / 86400000)).year ++ ((fields time).flatMap Field.text ++ [0x5A])

example : toISOString 1709164800123 = js "2024-02-29T00:00:00.123Z" := by decide

example : toISOString (-62167219200001) = js "-000001-12-31T23:59:59.999Z" := by decide

theorem sign_ne_padStart {sign : UInt16} (hsign : NumberState.isDigit sign = false) (text : JsString)
    (width n : Nat) : sign :: text ≠ JsString.padStart width n := by
  intro h
  have hmem : sign ∈ JsString.padStart width n := by
    rw [← h]
    exact List.mem_cons_self
  rw [JsString.isDigit_of_mem_padStart hmem] at hsign
  exact absurd hsign (by decide)

theorem yearText_injective {y z : Int} (h : yearText y = yearText z) : y = z := by
  have hplus : ∀ text width n, (0x2B :: text : JsString) ≠ JsString.padStart width n :=
    sign_ne_padStart (by decide)
  have hminus : ∀ text width n, (0x2D :: text : JsString) ≠ JsString.padStart width n :=
    sign_ne_padStart (by decide)
  cases y with
  | ofNat m =>
      cases z with
      | ofNat n =>
          simp only [yearText] at h
          split at h <;> split at h
          · rw [JsString.padStart_injective h]
          · exact absurd h.symm (hplus _ _ _)
          · exact absurd h (hplus _ _ _)
          · rw [JsString.padStart_injective (List.cons.inj h).2]
      | negSucc n =>
          simp only [yearText] at h
          split at h
          · exact absurd h.symm (hminus _ _ _)
          · exact absurd (List.cons.inj h).1 (by decide)
  | negSucc m =>
      cases z with
      | ofNat n =>
          simp only [yearText] at h
          split at h
          · exact absurd h (hminus _ _ _)
          · exact absurd (List.cons.inj h).1 (by decide)
      | negSucc n =>
          have hvalue := JsString.padStart_injective (List.cons.inj h).2
          obtain rfl : m = n := by omega
          rfl

/-- Fields of the same widths are as long as each other. -/
theorem length_fields {a b : List Field} (hwidths : a.map Field.width = b.map Field.width)
    (ha : ∀ field ∈ a, field.Fits) (hb : ∀ field ∈ b, field.Fits) :
    (a.flatMap Field.text).length = (b.flatMap Field.text).length := by
  induction a generalizing b with
  | nil =>
      rw [List.map_nil, eq_comm, List.map_eq_nil_iff] at hwidths
      rw [hwidths]
  | cons field rest ih =>
      cases b with
      | nil => exact absurd hwidths (by simp)
      | cons field' rest' =>
          obtain ⟨hwidth, hrest⟩ := List.cons.inj hwidths
          obtain ⟨hpos, hvalue⟩ := ha field List.mem_cons_self
          obtain ⟨hpos', hvalue'⟩ := hb field' List.mem_cons_self
          have hlater := ih hrest (fun other hother => ha other (List.mem_cons_of_mem _ hother))
            (fun other hother => hb other (List.mem_cons_of_mem _ hother))
          rw [List.flatMap_cons, List.flatMap_cons, List.length_append, List.length_append, hlater,
            Field.text, Field.text, List.length_cons, List.length_cons,
            JsString.length_padStart hpos hvalue, JsString.length_padStart hpos' hvalue', hwidth]

/-- Fields of the same widths are read back one after another. -/
theorem fields_injective {a b : List Field} (hwidths : a.map Field.width = b.map Field.width)
    (ha : ∀ field ∈ a, field.Fits) (hb : ∀ field ∈ b, field.Fits)
    (h : a.flatMap Field.text = b.flatMap Field.text) : a.map Field.value = b.map Field.value := by
  induction a generalizing b with
  | nil =>
      rw [List.map_nil, eq_comm, List.map_eq_nil_iff] at hwidths
      rw [hwidths]
  | cons field rest ih =>
      cases b with
      | nil => exact absurd hwidths (by simp)
      | cons field' rest' =>
          obtain ⟨hwidth, hrest⟩ := List.cons.inj hwidths
          have hone : (Field.text field).length = (Field.text field').length := by
            rw [Field.text, Field.text, List.length_cons, List.length_cons,
              JsString.length_padStart (ha field List.mem_cons_self).1 (ha field List.mem_cons_self).2,
              JsString.length_padStart (hb field' List.mem_cons_self).1 (hb field' List.mem_cons_self).2]
            exact congrArg (· + 1) hwidth
          obtain ⟨hfield, hlater⟩ := List.append_inj h hone
          have hvalues := ih hrest (fun other hother => ha other (List.mem_cons_of_mem _ hother))
            (fun other hother => hb other (List.mem_cons_of_mem _ hother)) hlater
          have hdigits := (List.cons.inj hfield).2
          rw [show field.width = field'.width from hwidth] at hdigits
          rw [List.map_cons, List.map_cons, hvalues, JsString.padStart_injective hdigits]

theorem fits_two (separator : UInt16) {value : Nat} (h : value < 100) : Field.Fits ⟨separator, 2, value⟩ :=
  ⟨Nat.succ_pos 1, h⟩

theorem fits_fields (time : Int) : ∀ field ∈ fields time, field.Fits := by
  obtain ⟨hmonth, hday⟩ := dateOfDay_bounds (time / 86400000)
  have hrest : (time % 86400000).toNat < 86400000 := by omega
  intro field hfield
  simp only [fields, List.mem_cons, List.not_mem_nil, or_false] at hfield
  rcases hfield with rfl | rfl | rfl | rfl | rfl | rfl
  · exact fits_two _ hmonth
  · exact fits_two _ hday
  · exact fits_two _ (by omega)
  · exact fits_two _ (by omega)
  · exact fits_two _ (by omega)
  · exact ⟨Nat.succ_pos 2, Nat.mod_lt _ (Nat.succ_pos 999)⟩

theorem toISOString_injective {s t : Int} (h : toISOString s = toISOString t) : s = t := by
  have hlength := length_fields (a := fields s) (b := fields t) rfl (fits_fields s) (fits_fields t)
  obtain ⟨hyear, hrest⟩ := List.append_inj' h (by
    rw [List.length_append, List.length_append, hlength])
  have hvalues := fields_injective (a := fields s) (b := fields t) rfl (fits_fields s) (fits_fields t)
    (List.append_cancel_right hrest)
  simp only [fields, List.map_cons, List.map_nil, List.cons.injEq, and_true] at hvalues
  obtain ⟨hmonth, hday, hhour, hminute, hsecond, hmillisecond⟩ := hvalues
  have hdate : dateOfDay (s / 86400000) = dateOfDay (t / 86400000) := by
    have hyears := yearText_injective hyear
    generalize dateOfDay (s / 86400000) = date at hyears hmonth hday
    generalize dateOfDay (t / 86400000) = date' at hyears hmonth hday
    cases date
    cases date'
    simp only at hyears hmonth hday
    rw [hyears, hmonth, hday]
  have hdays := dateOfDay_injective hdate
  omega

end Calendar
