import Mathlib.Data.List.Basic
import Mathlib.Data.List.TakeWhile
import FourGL.Version

/-!
# How versions are written

A version is written as the digits of its major number, behind which a point and one or two digits
may stand for the minor number. A single digit counts tens. With white space around it, every such
form is read as its version. What is read beyond these forms has a plus sign: before the major
number, or as the first of the two characters behind the point, so that `2.+5` is `2.05` and not
`2.50` (`ofText?_iff_written`).
-/

namespace FourGL

/-! ## White space around a text -/

/-- Between white space at either end, the text consists of characters with the property `P`. -/
def Spaced (P : List Char → Prop) (text : String) : Prop :=
  ∃ before cs after, text.toList = before ++ (cs ++ after) ∧
    (∀ c ∈ before, isSpace c = true) ∧ (∀ c ∈ after, isSpace c = true) ∧ P cs

theorem isSpace_of_isDigit {c : Char} (h : c.isDigit = true) : isSpace c = false := by
  have hrange : 48 ≤ c.toNat ∧ c.toNat ≤ 57 := Char.isDigit_iff_toNat.mp h
  simp only [isSpace, Bool.or_eq_false_iff, Bool.and_eq_false_iff, decide_eq_false_iff_not,
    beq_eq_false_iff_ne]
  omega

/-- What `trim` leaves out is white space. -/
theorem exists_trim (text : String) : ∃ before after,
    text.toList = before ++ ((trim text).toList ++ after) ∧
    (∀ c ∈ before, isSpace c = true) ∧
      ∀ c ∈ after, isSpace c = true := by
  have hfront := List.takeWhile_append_dropWhile (p := isSpace) (l := text.toList)
  generalize hrest : text.toList.dropWhile isSpace = rest at hfront
  have hback := List.takeWhile_append_dropWhile (p := isSpace) (l := rest.reverse)
  refine ⟨text.toList.takeWhile isSpace, (rest.reverse.takeWhile isSpace).reverse, ?_,
    fun c => List.mem_takeWhile_imp, fun c hc => List.mem_takeWhile_imp (List.mem_reverse.mp hc)⟩
  rw [trim, String.toList_ofList, hrest, ← List.reverse_append, hback,
    List.reverse_reverse, hfront]

/-- White space around a text without any is what `trim` leaves out. -/
theorem toList_trim {text : String} (htext : text.toList = before ++ (cs ++ after))
    (hbefore : ∀ c ∈ before, isSpace c = true) (hafter : ∀ c ∈ after, isSpace c = true)
    (hcs : ∀ c ∈ cs, isSpace c = false) : (trim text).toList = cs := by
  have hplain {ds : List Char} (hds : ∀ c ∈ ds, isSpace c = false) (es : List Char)
      (hne : ds ≠ []) : (ds ++ es).dropWhile isSpace = ds ++ es := by
    obtain ⟨d, ds, rfl⟩ := List.exists_cons_of_ne_nil hne
    exact List.dropWhile_cons_of_neg (by simp [hds])
  rw [trim, String.toList_ofList, htext, List.dropWhile_append_of_pos hbefore]
  by_cases hne : cs = []
  · subst hne
    have hnone : after.dropWhile isSpace = [] := List.dropWhile_eq_nil_iff.mpr hafter
    simp [hnone]
  · have hback : ∀ c ∈ after.reverse, isSpace c = true := by simpa using hafter
    have hreverse : ∀ c ∈ cs.reverse, isSpace c = false := by simpa using hcs
    have hkept := hplain hreverse [] (by simpa using hne)
    rw [hplain hcs after hne, List.reverse_append, List.dropWhile_append_of_pos hback]
    rw [List.append_nil] at hkept
    rw [hkept, List.reverse_reverse]

theorem spaced_iff {P : List Char → Prop} (hP : ∀ cs, P cs → ∀ c ∈ cs, isSpace c = false)
    (text : String) : Spaced P text ↔ P (trim text).toList := by
  constructor
  · rintro ⟨before, cs, after, htext, hbefore, hafter, h⟩
    rwa [toList_trim htext hbefore hafter (hP cs h)]
  · intro h
    obtain ⟨before, after, htext, hbefore, hafter⟩ := exists_trim text
    exact ⟨before, _, after, htext, hbefore, hafter, h⟩

theorem mem_trim_iff {c : Char} (hc : isSpace c = false) (text : String) :
    c ∈ (trim text).toList ↔ c ∈ text.toList := by
  obtain ⟨before, after, htext, hbefore, hafter⟩ := exists_trim text
  have hb : c ∉ before := fun h => by simp [hbefore c h] at hc
  have ha : c ∉ after := fun h => by simp [hafter c h] at hc
  rw [htext]
  simp [hb, ha]

namespace Version

/-! ## Written forms -/

/-- The digits write the number `n` in base ten. Zeros may come first. -/
structure Decimal (n : Nat) (digits : List Char) : Prop where
  ne_nil : digits ≠ []
  isDigit : ∀ c ∈ digits, c.isDigit = true
  value : Nat.ofDigitChars 10 digits 0 = n

/-- Whether plus signs may stand among the digits. -/
inductive Signs where
  | refused
  | allowed

/-- A major number is written with any number of digits. -/
inductive WritesMajor (signs : Signs) (n : Nat) : List Char → Prop where
  | plain (h : Decimal n digits) : WritesMajor signs n digits
  | signed (hsigns : signs = .allowed) (h : Decimal n digits) : WritesMajor signs n ('+' :: digits)

/-- What stands behind the major number for the minor number. -/
inductive WritesMinor (signs : Signs) : Nat → List Char → Prop where
  | absent : WritesMinor signs 0 []
  | tens (h : Decimal n [d]) : WritesMinor signs (10 * n) ['.', d]
  | both (h : Decimal n [d, e]) : WritesMinor signs n ['.', d, e]
  /-- A plus sign takes the place of one of the two digits, and the other does not count tens. -/
  | signed (hsigns : signs = .allowed) (h : Decimal n [d]) : WritesMinor signs n ['.', '+', d]

/-- A form of the version. -/
inductive Writes (signs : Signs) (v : Version) : List Char → Prop where
  | intro (hmajor : WritesMajor signs v.major front) (hle : v.major ≤ maxPart)
    (hminor : WritesMinor signs v.minor back) : Writes signs v (front ++ back)

/-! ## Numbers -/

/-- The decimal notation of a number writes it. -/
theorem decimal_toDigits (n : Nat) : Decimal n (Nat.toDigits 10 n) where
  ne_nil := Nat.toDigits_ne_nil
  isDigit _ := Nat.isDigit_of_mem_toDigits (by decide) (by decide)
  value := Nat.ofDigitChars_ten_toDigits

theorem Decimal.notMem (h : Decimal n digits) {c : Char} (hc : c.isDigit = false) : c ∉ digits :=
  fun hmem => by simp [h.isDigit c hmem] at hc

theorem digitsValue?_eq_some_iff : digitsValue? cs = some n ↔ Decimal n cs := by
  have hvalue : cs.foldl (fun n c => 10 * n + (c.toNat - '0'.toNat)) 0 = Nat.ofDigitChars 10 cs 0 :=
    Nat.ofDigitChars_eq_foldl.symm
  rw [digitsValue?, hvalue]
  split
  next h =>
    refine iff_of_false nofun fun hcs => ?_
    have hempty : cs.isEmpty = false := by simpa using hcs.ne_nil
    have hall : cs.all Char.isDigit = true := List.all_eq_true.mpr hcs.isDigit
    simp [hempty, hall] at h
  next h =>
    have h : cs ≠ [] ∧ ∀ c ∈ cs, c.isDigit = true := by simpa using h
    rw [Option.some.injEq]
    exact ⟨fun hn => ⟨h.1, h.2, hn⟩, Decimal.value⟩

theorem part?_eq_some_iff : part? cs = some n ↔ WritesMajor .allowed n cs ∧ n ≤ maxPart := by
  have hbound (ds : List Char) :
      ((digitsValue? ds).bind fun n => if n ≤ maxPart then some n else none) = some n ↔
        Decimal n ds ∧ n ≤ maxPart := by
    rw [Option.bind_eq_some_iff]
    constructor
    · rintro ⟨m, hm, h⟩
      split at h
      · cases h
        exact ⟨digitsValue?_eq_some_iff.mp hm, ‹_›⟩
      · cases h
    · rintro ⟨h, hle⟩
      exact ⟨n, digitsValue?_eq_some_iff.mpr h, if_pos hle⟩
  unfold part?
  split
  next ds =>
    rw [hbound]
    refine and_congr_left fun _ => ⟨.signed rfl, fun h => ?_⟩
    cases h with
    | plain h => exact absurd List.mem_cons_self (h.notMem (by decide))
    | signed _ h => exact h
  next hplus =>
    rw [hbound]
    refine and_congr_left fun _ => ⟨.plain, fun h => ?_⟩
    cases h with
    | plain h => exact h
    | signed _ h => exact absurd rfl (hplus _)

/-! ## The minor number -/

/-- The minor number by what stands behind the major one. -/
def minor? : List Char → Option Nat
  | [] => some 0
  | _ :: cs =>
    if cs.isEmpty || 2 < cs.length then none
    else (part? cs).map fun n => if cs.length = 1 then 10 * n else n

/-- The major number ends at the first point. -/
theorem ofText?_eq (text : String) : ofText? text =
    (part? ((trim text).toList.takeWhile (· != '.'))).bind fun major =>
      (minor? ((trim text).toList.dropWhile (· != '.'))).map (⟨major, ·⟩) := by
  unfold ofText?
  dsimp only
  cases (trim text).toList.dropWhile (· != '.') with
  | nil =>
    have hzero : part? ['0'] = some 0 := rfl
    simp [minor?, hzero]
  | cons c cs =>
    dsimp only
    rw [minor?]
    by_cases hlength : (cs.isEmpty || decide (2 < cs.length)) = true
    · rw [if_pos hlength, if_pos hlength]
      simp
    · rw [if_neg hlength, if_neg hlength]
      simp [Function.comp_def]

theorem Decimal.le_nine (h : Decimal n [d]) : n ≤ 9 := by
  have hd : d.toNat ≤ 57 := (Char.isDigit_iff_toNat.mp (h.isDigit d (by simp))).2
  have hn : 10 * 0 + (d.toNat - 48) = n := h.value
  omega

theorem Decimal.le_ninetyNine (h : Decimal n [d, e]) : n ≤ 99 := by
  have hd : d.toNat ≤ 57 := (Char.isDigit_iff_toNat.mp (h.isDigit d (by simp))).2
  have he : e.toNat ≤ 57 := (Char.isDigit_iff_toNat.mp (h.isDigit e (by simp))).2
  have hn : 10 * (10 * 0 + (d.toNat - 48)) + (e.toNat - 48) = n := h.value
  omega

theorem minor?_eq_some_iff : minor? ('.' :: cs) = some n ↔
    WritesMinor .allowed n ('.' :: cs) := by
  -- Two digits never exceed the bound that all numbers have.
  have hsmall {m : Nat} (h : m ≤ 99) : m ≤ maxPart := Nat.le_trans h (by decide)
  constructor
  · intro hread
    rw [minor?] at hread
    split at hread
    next => cases hread
    next hlength =>
      obtain ⟨m, hpart, rfl⟩ := Option.map_eq_some_iff.mp hread
      obtain ⟨hmajor, -⟩ := part?_eq_some_iff.mp hpart
      cases hmajor with
      | plain h =>
        rcases cs with _ | ⟨d, _ | ⟨e, _ | ⟨c, cs⟩⟩⟩
        · exact absurd rfl h.ne_nil
        · exact .tens h
        · exact .both h
        · simp at hlength
      | @signed digits _ h =>
        rcases digits with _ | ⟨d, _ | ⟨c, digits⟩⟩
        · exact absurd rfl h.ne_nil
        · exact .signed rfl h
        · simp at hlength
  · intro h
    cases h with
    | tens h =>
      have hle := hsmall (Nat.le_trans h.le_nine (by decide))
      simp [minor?, part?_eq_some_iff.mpr ⟨.plain h, hle⟩]
    | both h => simp [minor?, part?_eq_some_iff.mpr ⟨.plain h, hsmall h.le_ninetyNine⟩]
    | signed _ h =>
      have hle := hsmall (Nat.le_trans h.le_nine (by decide))
      simp [minor?, part?_eq_some_iff.mpr ⟨.signed rfl h, hle⟩]

/-! ## Both numbers -/

theorem WritesMajor.point_notMem (h : WritesMajor signs n cs) : '.' ∉ cs := by
  cases h with
  | plain h => exact h.notMem (by decide)
  | signed _ h => simpa using h.notMem (c := '.') (by decide)

theorem WritesMinor.nil_or_point (h : WritesMinor signs n cs) :
    cs = [] ∨ ∃ ds, cs = '.' :: ds := by
  cases h with
  | absent => exact .inl rfl
  | tens | both | signed => exact .inr ⟨_, rfl⟩

/-- A form falls into its numbers at the first point. -/
theorem writes_iff (cs : List Char) : Writes .allowed v cs ↔
    part? (cs.takeWhile (· != '.')) = some v.major ∧
      minor? (cs.dropWhile (· != '.')) = some v.minor := by
  constructor
  · rintro @⟨front, back, hmajor, hle, hminor⟩
    have hfront : ∀ c ∈ front, (c != '.') = true := by
      intro c hc
      rw [bne_iff_ne]
      rintro rfl
      exact hmajor.point_notMem hc
    rw [List.takeWhile_append_of_pos hfront, List.dropWhile_append_of_pos hfront]
    rcases hminor.nil_or_point with rfl | ⟨ds, rfl⟩
    · generalize hn : v.minor = n at hminor ⊢
      cases hminor
      simpa [minor?] using part?_eq_some_iff.mpr ⟨hmajor, hle⟩
    · simpa using ⟨part?_eq_some_iff.mpr ⟨hmajor, hle⟩, minor?_eq_some_iff.mpr hminor⟩
  · rintro ⟨hpart, hminor⟩
    obtain ⟨hmajor, hle⟩ := part?_eq_some_iff.mp hpart
    rw [← List.takeWhile_append_dropWhile (p := (· != '.')) (l := cs)]
    refine .intro hmajor hle ?_
    rcases hback : cs.dropWhile (· != '.') with _ | ⟨c, ds⟩
    · rw [hback] at hminor
      rw [← Option.some.inj hminor]
      exact .absent
    · have hpoint : c = '.' := by
        have hhead := List.head_dropWhile_not (· != '.') (l := cs) (by simp [hback])
        simpa [hback] using hhead
      rw [hback, hpoint] at hminor
      exact hpoint ▸ minor?_eq_some_iff.mp hminor

theorem ofText?_eq_some_iff_writes (text : String) :
    ofText? text = some v ↔ Writes .allowed v (trim text).toList := by
  rw [ofText?_eq, writes_iff]
  simp only [Option.bind_eq_some_iff, Option.map_eq_some_iff]
  constructor
  · rintro ⟨major, hmajor, minor, hminor, rfl⟩
    exact ⟨hmajor, hminor⟩
  · rintro ⟨hmajor, hminor⟩
    exact ⟨_, hmajor, _, hminor, rfl⟩

/-! ## Plus signs -/

theorem writesMajor_refused_iff :
    WritesMajor .refused n cs ↔ WritesMajor .allowed n cs ∧ '+' ∉ cs := by
  constructor
  · rintro (h | ⟨hsigns, -⟩)
    · exact ⟨.plain h, h.notMem (by decide)⟩
    · cases hsigns
  · rintro ⟨h | ⟨-, -⟩, hplus⟩
    · exact .plain h
    · exact absurd List.mem_cons_self hplus

theorem writesMinor_refused_iff :
    WritesMinor .refused n cs ↔ WritesMinor .allowed n cs ∧ '+' ∉ cs := by
  have hplus {m : Nat} {ds : List Char} (h : Decimal m ds) : '+' ∉ '.' :: ds := by
    simpa using h.notMem (c := '+') (by decide)
  constructor
  · intro h
    cases h with
    | absent => exact ⟨.absent, List.not_mem_nil⟩
    | tens h => exact ⟨.tens h, hplus h⟩
    | both h => exact ⟨.both h, hplus h⟩
    | signed hsigns => cases hsigns
  · rintro ⟨h, hcs⟩
    cases h with
    | absent => exact .absent
    | tens h => exact .tens h
    | both h => exact .both h
    | signed => simp at hcs

theorem writes_refused_iff : Writes .refused v cs ↔ Writes .allowed v cs ∧ '+' ∉ cs := by
  constructor
  · rintro ⟨hmajor, hle, hminor⟩
    obtain ⟨hmajor, hfront⟩ := writesMajor_refused_iff.mp hmajor
    obtain ⟨hminor, hback⟩ := writesMinor_refused_iff.mp hminor
    exact ⟨.intro hmajor hle hminor, by simp [hfront, hback]⟩
  · rintro ⟨⟨hmajor, hle, hminor⟩, hplus⟩
    obtain ⟨hfront, hback⟩ := not_or.mp (mt List.mem_append.mpr hplus)
    exact .intro (writesMajor_refused_iff.mpr ⟨hmajor, hfront⟩) hle
      (writesMinor_refused_iff.mpr ⟨hminor, hback⟩)

/-! ## Between white space -/

theorem Decimal.isSpace (h : Decimal n digits) : ∀ c ∈ digits, isSpace c = false :=
  fun c hc => isSpace_of_isDigit (h.isDigit c hc)

theorem WritesMajor.isSpace (h : WritesMajor signs n cs) : ∀ c ∈ cs, isSpace c = false := by
  cases h with
  | plain h => exact h.isSpace
  | signed _ h => exact List.forall_mem_cons.mpr ⟨rfl, h.isSpace⟩

theorem WritesMinor.isSpace (h : WritesMinor signs n cs) : ∀ c ∈ cs, isSpace c = false := by
  cases h with
  | absent => exact nofun
  | tens h | both h => exact List.forall_mem_cons.mpr ⟨rfl, h.isSpace⟩
  | signed _ h =>
    exact List.forall_mem_cons.mpr ⟨rfl, List.forall_mem_cons.mpr ⟨rfl, h.isSpace⟩⟩

/-- No form has white space in it. -/
theorem Writes.isSpace (h : Writes signs v cs) : ∀ c ∈ cs, isSpace c = false := by
  obtain ⟨hmajor, -, hminor⟩ := h
  exact List.forall_mem_append.mpr ⟨hmajor.isSpace, hminor.isSpace⟩

theorem spaced_writes_iff (signs : Signs) (v : Version) (text : String) :
    Spaced (Writes signs v) text ↔ Writes signs v (trim text).toList :=
  spaced_iff (fun _ => Writes.isSpace) text

/-- A text is read as a version if and only if it is a form of it between white space, where a plus
sign may stand before the major number and may be the first of the two characters of the minor one.
The texts that are read and have no plus sign are exactly the forms in which none may stand. -/
theorem ofText?_iff_written (text : String) (v : Version) :
    (ofText? text = some v ↔ Spaced (Writes .allowed v) text) ∧
      (Spaced (Writes .refused v) text ↔ ofText? text = some v ∧ '+' ∉ text.toList) := by
  have hplus : '+' ∈ (trim text).toList ↔ '+' ∈ text.toList := mem_trim_iff rfl text
  constructor
  · rw [spaced_writes_iff, ofText?_eq_some_iff_writes]
  · rw [spaced_writes_iff, writes_refused_iff, ofText?_eq_some_iff_writes, hplus]

/-- The sign in `2.+5` takes the place of a digit, and so the other one does not count tens. -/
theorem ofText?_iff_written_sign :
    ofText? "2.+5" = some ⟨2, 5⟩ ∧ ∀ v, ¬ Spaced (Writes .refused v) "2.+5" := by
  have hmajor : WritesMajor .allowed 2 ['2'] := .plain ⟨by simp, by simp, rfl⟩
  have hminor : WritesMinor .allowed 5 ['.', '+', '5'] := .signed rfl ⟨by simp, by simp, rfl⟩
  have hform : Writes .allowed ⟨2, 5⟩ (['2'] ++ ['.', '+', '5']) :=
    .intro hmajor (by decide) hminor
  have hplus : '+' ∈ "2.+5".toList := by decide
  exact ⟨(ofText?_iff_written _ _).1.mpr ⟨[], _, [], by simp, nofun, nofun, hform⟩,
    fun v h => ((ofText?_iff_written _ v).2.mp h).2 hplus⟩

/-! ## The form that is printed -/

/-- A zero before the digits makes no difference. -/
theorem Decimal.zero_cons (h : Decimal n digits) : Decimal n ('0' :: digits) where
  ne_nil := List.cons_ne_nil _ _
  isDigit := List.forall_mem_cons.mpr ⟨rfl, h.isDigit⟩
  value := by
    rw [Nat.ofDigitChars_cons]
    exact h.value

theorem exists_twoDigits (h : n ≤ 99) :
    ∃ d e, (twoDigits n).toList = [d, e] ∧ Decimal n [d, e] := by
  have hdecimal := decimal_toDigits n
  unfold twoDigits
  split
  next hlt =>
    rw [Nat.toDigits_of_lt_base hlt] at hdecimal
    refine ⟨'0', n.digitChar, ?_, hdecimal.zero_cons⟩
    simp [toString, Nat.toList_repr, Nat.toDigits_of_lt_base hlt]
  next hge =>
    have hle : (Nat.toDigits 10 n).length ≤ 2 :=
      (Nat.length_toDigits_le_iff (by decide) (by decide)).mpr (by omega)
    have hne : ¬ (Nat.toDigits 10 n).length ≤ 1 := fun hle =>
      hge ((Nat.length_toDigits_le_iff (by decide) (by decide)).mp hle)
    obtain ⟨d, e, hdigits⟩ := List.length_eq_two.mp (by omega : (Nat.toDigits 10 n).length = 2)
    refine ⟨d, e, ?_, hdigits ▸ hdecimal⟩
    simp [toString, Nat.toList_repr, hdigits]

theorem writes_render {v : Version} (hmajor : v.major ≤ maxPart) (hminor : v.minor ≤ 99) :
    Writes .allowed v v.render.toList := by
  obtain ⟨d, e, hdigits, hdecimal⟩ := exists_twoDigits hminor
  have hrender : v.render.toList = Nat.toDigits 10 v.major ++ ['.', d, e] := by
    simp [render, toString, Nat.toList_repr, hdigits]
  rw [hrender]
  exact .intro (.plain (decimal_toDigits v.major)) hmajor (.both hdecimal)

theorem ofText?_render {v : Version} (hmajor : v.major ≤ maxPart) (hminor : v.minor ≤ 99) :
    ofText? v.render = some v := by
  rw [ofText?_eq_some_iff_writes, ← spaced_writes_iff]
  exact ⟨[], _, [], by simp, nofun, nofun, writes_render hmajor hminor⟩

theorem WritesMinor.le (h : WritesMinor signs n cs) : n ≤ 99 := by
  cases h with
  | absent => exact Nat.zero_le 99
  | tens h | signed _ h =>
    have hle := h.le_nine
    omega
  | both h => exact h.le_ninetyNine

theorem Writes.bounds (h : Writes signs v cs) : v.major ≤ maxPart ∧ v.minor ≤ 99 := by
  obtain ⟨-, hmajor, hminor⟩ := h
  exact ⟨hmajor, hminor.le⟩

end Version

end FourGL
