import Dispatch.Text.Unsigned
import Mathlib.Data.List.TakeWhile

/-!
# Which texts are read as numbers

A text stands for a number if it consists of decimal digits, with a plus sign before them or not and with
white space around them or not, and their value is that of a machine word (`Numeral`). These texts are read,
and no others are (`readUnsigned_eq_ok_iff`). What is told of any other text is what is wrong with it first,
read from the left (`readUnsigned_eq_error_iff`).
-/

namespace Dispatch.Text

variable {bound value number : Nat} {cs digits rest before middle behind : List Char} {c : Char}
  {fault : UnsignedFault} {text : String}

/-- A text stands for a number: its digits, in white space and perhaps behind a plus sign, have that value. -/
inductive Numeral (text : String) (number : Nat) : Prop
  | intro {before sign digits behind : List Char}
      (split : text.toList = before ++ (sign ++ digits) ++ behind)
      (before_blank : ∀ c ∈ before, isBlank c = true) (behind_blank : ∀ c ∈ behind, isBlank c = true)
      (signs : sign = [] ∨ sign = ['+'])
      (nonempty : digits ≠ []) (isDigit : ∀ c ∈ digits, c.isDigit = true)
      (value : Nat.ofDigitChars 10 digits 0 = number) (lt : number < wordBound)

/-- What is wrong first with characters that are read as digits onto a value: one is not a digit, while the
digits before it stay below the bound, or the first so many are digits and reach the bound. -/
inductive Misread (bound value : Nat) (cs : List Char) : UnsignedFault → Prop
  | invalidDigit {digits rest : List Char} {c : Char} (split : cs = digits ++ c :: rest)
      (isDigit : ∀ d ∈ digits, d.isDigit = true) (below : Nat.ofDigitChars 10 digits value < bound)
      (other : ¬ c.isDigit = true) : Misread bound value cs .invalidDigit
  | tooLarge {digits rest : List Char} (split : cs = digits ++ rest)
      (isDigit : ∀ d ∈ digits, d.isDigit = true) (reached : bound ≤ Nat.ofDigitChars 10 digits value) :
      Misread bound value cs .tooLarge

/-- The characters behind a plus sign, which counts as one only if there are any. -/
def withoutSign : List Char → List Char
  | '+' :: c :: rest => c :: rest
  | cs => cs

/-- Why a text stands for no number: it is blank, or something is wrong with its digits. -/
inductive Unreadable (text : String) : UnsignedFault → Prop
  | empty (blank : ∀ c ∈ text.toList, isBlank c = true) : Unreadable text .empty
  | misread {fault : UnsignedFault}
      (misread : Misread wordBound 0 (withoutSign (trimmed text.toList)) fault) : Unreadable text fault

/-! ### Digits -/

theorem digitValue_of_isDigit (h : c.isDigit = true) : digitValue c = some (c.toNat - '0'.toNat) :=
  if_pos h

theorem digitValue_of_not_isDigit (h : ¬ c.isDigit = true) : digitValue c = none :=
  if_neg h

theorem le_ofDigitChars (digits : List Char) (value : Nat) :
    value ≤ Nat.ofDigitChars 10 digits value := by
  induction digits generalizing value with
  | nil => exact Nat.le_refl value
  | cons c digits ih =>
    have hstep := ih (10 * value + (c.toNat - '0'.toNat))
    rw [Nat.ofDigitChars_cons]
    omega

theorem readDigits_cons_of_lt (hc : c.isDigit = true)
    (hlt : 10 * value + (c.toNat - '0'.toNat) < bound) :
    readDigits bound value (c :: rest) = readDigits bound (10 * value + (c.toNat - '0'.toNat)) rest := by
  rw [readDigits, digitValue_of_isDigit hc]
  exact if_pos hlt

theorem readDigits_cons_of_le (hc : c.isDigit = true)
    (hle : bound ≤ 10 * value + (c.toNat - '0'.toNat)) :
    readDigits bound value (c :: rest) = .error .tooLarge := by
  rw [readDigits, digitValue_of_isDigit hc]
  exact if_neg (Nat.not_lt.mpr hle)

theorem readDigits_cons_of_not_isDigit (hc : ¬ c.isDigit = true) :
    readDigits bound value (c :: rest) = .error .invalidDigit := by
  rw [readDigits, digitValue_of_not_isDigit hc]

theorem readDigits_append_of_lt (hdigits : ∀ d ∈ digits, d.isDigit = true)
    (hlt : Nat.ofDigitChars 10 digits value < bound) : readDigits bound value (digits ++ rest) =
      readDigits bound (Nat.ofDigitChars 10 digits value) rest := by
  induction digits generalizing value with
  | nil => rfl
  | cons c digits ih =>
    rw [List.forall_mem_cons] at hdigits
    rw [Nat.ofDigitChars_cons] at hlt ⊢
    have hbelow := Nat.lt_of_le_of_lt (le_ofDigitChars digits _) hlt
    rw [List.cons_append, readDigits_cons_of_lt hdigits.1 hbelow]
    exact ih hdigits.2 hlt

/-- Digits whose value reaches the bound are not, whatever follows them. -/
theorem readDigits_append_of_le (hvalue : value < bound) (hdigits : ∀ d ∈ digits, d.isDigit = true)
    (hle : bound ≤ Nat.ofDigitChars 10 digits value) :
    readDigits bound value (digits ++ rest) = .error .tooLarge := by
  induction digits generalizing value with
  | nil => exact absurd hvalue (Nat.not_lt.mpr hle)
  | cons c digits ih =>
    rw [List.forall_mem_cons] at hdigits
    rw [Nat.ofDigitChars_cons] at hle
    rw [List.cons_append]
    rcases Nat.lt_or_ge (10 * value + (c.toNat - '0'.toNat)) bound with hlt | hge
    · rw [readDigits_cons_of_lt hdigits.1 hlt]
      exact ih hlt hdigits.2 hle
    · exact readDigits_cons_of_le hdigits.1 hge

theorem Misread.cons (hc : c.isDigit = true)
    (h : Misread bound (10 * value + (c.toNat - '0'.toNat)) cs fault) :
    Misread bound value (c :: cs) fault := by
  cases h with
  | @invalidDigit digits rest other split isDigit below ne =>
    have hdigits : ∀ d ∈ c :: digits, d.isDigit = true := List.forall_mem_cons.mpr ⟨hc, isDigit⟩
    exact .invalidDigit (congrArg (c :: ·) split) hdigits (by rwa [Nat.ofDigitChars_cons]) ne
  | @tooLarge digits rest split isDigit reached =>
    have hdigits : ∀ d ∈ c :: digits, d.isDigit = true := List.forall_mem_cons.mpr ⟨hc, isDigit⟩
    exact .tooLarge (congrArg (c :: ·) split) hdigits (by rwa [Nat.ofDigitChars_cons])

/-- What reading digits comes to: they are all read, or what is wrong with them is told. -/
theorem readDigits_cases (bound value : Nat) (hvalue : value < bound) (cs : List Char) :
    ((∀ c ∈ cs, c.isDigit = true) ∧ Nat.ofDigitChars 10 cs value < bound) ∨
      ∃ fault, Misread bound value cs fault := by
  induction cs generalizing value with
  | nil => exact .inl ⟨List.forall_mem_nil _, hvalue⟩
  | cons c cs ih =>
    by_cases hc : c.isDigit = true
    · rcases Nat.lt_or_ge (10 * value + (c.toNat - '0'.toNat)) bound with hlt | hge
      · rcases ih _ hlt with ⟨hdigits, hbelow⟩ | ⟨fault, hmisread⟩
        · exact .inl ⟨List.forall_mem_cons.mpr ⟨hc, hdigits⟩, by rwa [Nat.ofDigitChars_cons]⟩
        · exact .inr ⟨fault, hmisread.cons hc⟩
      · have hreached : bound ≤ Nat.ofDigitChars 10 [c] value := by
          rw [Nat.ofDigitChars_cons]
          exact hge
        exact .inr ⟨_, .tooLarge rfl (List.forall_mem_singleton.mpr hc) hreached⟩
    · exact .inr ⟨_, .invalidDigit (List.nil_append _).symm (List.forall_mem_nil _) hvalue hc⟩

theorem Misread.eq_error (h : Misread bound value cs fault) (hvalue : value < bound) :
    readDigits bound value cs = .error fault := by
  cases h with
  | invalidDigit split isDigit below other =>
    rw [split, readDigits_append_of_lt isDigit below]
    exact readDigits_cons_of_not_isDigit other
  | tooLarge split isDigit reached =>
    rw [split]
    exact readDigits_append_of_le hvalue isDigit reached

/-- Digits are read exactly if all of them are digits and their value stays below the bound. -/
theorem readDigits_eq_ok_iff (hvalue : value < bound) : readDigits bound value cs = .ok number ↔
    (∀ c ∈ cs, c.isDigit = true) ∧ Nat.ofDigitChars 10 cs value = number ∧ number < bound := by
  have hread (hdigits : ∀ c ∈ cs, c.isDigit = true) (hlt : Nat.ofDigitChars 10 cs value < bound) :
      readDigits bound value cs = .ok (Nat.ofDigitChars 10 cs value) := by
    have happend := @readDigits_append_of_lt bound value cs [] hdigits hlt
    rwa [List.append_nil] at happend
  constructor
  · intro hok
    rcases readDigits_cases bound value hvalue cs with ⟨hdigits, hlt⟩ | ⟨fault, hmisread⟩
    · rw [hread hdigits hlt] at hok
      cases hok
      exact ⟨hdigits, rfl, hlt⟩
    · rw [hmisread.eq_error hvalue] at hok
      cases hok
  · rintro ⟨hdigits, rfl, hlt⟩
    exact hread hdigits hlt

/-- Otherwise it is told what is wrong first. -/
theorem readDigits_eq_error_iff (hvalue : value < bound) :
    readDigits bound value cs = .error fault ↔ Misread bound value cs fault := by
  refine ⟨fun herror => ?_, fun hmisread => hmisread.eq_error hvalue⟩
  rcases readDigits_cases bound value hvalue cs with ⟨hdigits, hlt⟩ | ⟨other, hmisread⟩
  · rw [(readDigits_eq_ok_iff hvalue).mpr ⟨hdigits, rfl, hlt⟩] at herror
    cases herror
  · rw [hmisread.eq_error hvalue] at herror
    cases herror
    exact hmisread

/-! ### White space and signs -/

theorem isBlank_of_isDigit (h : c.isDigit = true) : isBlank c = false := by
  obtain ⟨hle, hge⟩ := Char.isDigit_iff_toNat.mp h
  rw [show '0'.toNat = 48 from rfl] at hle
  rw [show '9'.toNat = 57 from rfl] at hge
  simp only [isBlank, Bool.or_eq_false_iff, Bool.and_eq_false_iff, decide_eq_false_iff_not]
  omega

/-- White space at both ends has been dropped, and nothing else. -/
theorem exists_trimmed (cs : List Char) : ∃ before behind, cs = before ++ trimmed cs ++ behind ∧
    (∀ c ∈ before, isBlank c = true) ∧ ∀ c ∈ behind, isBlank c = true := by
  refine ⟨cs.takeWhile isBlank, ((cs.dropWhile isBlank).reverse.takeWhile isBlank).reverse, ?_, ?_, ?_⟩
  · have hbehind : trimmed cs ++ ((cs.dropWhile isBlank).reverse.takeWhile isBlank).reverse =
        cs.dropWhile isBlank := by
      rw [trimmed, ← List.reverse_append, List.takeWhile_append_dropWhile, List.reverse_reverse]
    rw [List.append_assoc, hbehind, List.takeWhile_append_dropWhile]
  · exact fun c hmem => List.all_eq_true.mp List.all_takeWhile c hmem
  · intro c hmem
    exact List.all_eq_true.mp List.all_takeWhile c (List.mem_reverse.mp hmem)

theorem dropWhile_isBlank_append (hbefore : ∀ c ∈ before, isBlank c = true)
    (hc : isBlank c = false) : (before ++ c :: rest).dropWhile isBlank = c :: rest := by
  rw [List.dropWhile_append_of_pos hbefore, List.dropWhile_cons_of_neg (by simp [hc])]

/-- What stands between white space, without any in it, is what is left of a text. -/
theorem trimmed_append (hbefore : ∀ c ∈ before, isBlank c = true)
    (hbehind : ∀ c ∈ behind, isBlank c = true) (hne : middle ≠ [])
    (hmiddle : ∀ c ∈ middle, isBlank c = false) : trimmed (before ++ middle ++ behind) = middle := by
  have hfront : (before ++ middle ++ behind).dropWhile isBlank = middle ++ behind := by
    obtain ⟨c, rest, rfl⟩ := List.exists_cons_of_ne_nil hne
    rw [List.append_assoc, List.cons_append]
    exact dropWhile_isBlank_append hbefore (hmiddle c List.mem_cons_self)
  have hback : (middle ++ behind).reverse.dropWhile isBlank = middle.reverse := by
    have hreversed : middle.reverse ≠ [] := fun hnil => hne (List.reverse_eq_nil_iff.mp hnil)
    obtain ⟨c, rest, hcons⟩ := List.exists_cons_of_ne_nil hreversed
    have hc : c ∈ middle := List.mem_reverse.mp (hcons ▸ List.mem_cons_self)
    rw [List.reverse_append, hcons]
    exact dropWhile_isBlank_append (fun c hmem => hbehind c (List.mem_reverse.mp hmem)) (hmiddle c hc)
  rw [trimmed, hfront, hback, List.reverse_reverse]

theorem trimmed_eq_nil_iff : trimmed cs = [] ↔ ∀ c ∈ cs, isBlank c = true := by
  constructor
  · intro hnil
    obtain ⟨before, behind, hsplit, hbefore, hbehind⟩ := exists_trimmed cs
    rw [hnil, List.append_nil] at hsplit
    intro c hmem
    rw [hsplit] at hmem
    exact (List.mem_append.mp hmem).elim (hbefore c) (hbehind c)
  · intro hblank
    rw [trimmed, List.dropWhile_eq_nil_iff.mpr hblank]
    rfl

theorem exists_sign (cs : List Char) :
    ∃ sign, (sign = [] ∨ sign = ['+']) ∧ cs = sign ++ withoutSign cs := by
  unfold withoutSign
  split
  · exact ⟨['+'], .inr rfl, rfl⟩
  · exact ⟨[], .inl rfl, rfl⟩

theorem withoutSign_ne_nil (h : cs ≠ []) : withoutSign cs ≠ [] := by
  unfold withoutSign
  split
  · exact List.cons_ne_nil _ _
  · exact h

theorem withoutSign_append {sign : List Char} (hsign : sign = [] ∨ sign = ['+']) (hne : digits ≠ [])
    (hdigits : ∀ c ∈ digits, c.isDigit = true) : withoutSign (sign ++ digits) = digits := by
  obtain ⟨c, rest, rfl⟩ := List.exists_cons_of_ne_nil hne
  rcases hsign with rfl | rfl
  · have hplus : c ≠ '+' := by
      rintro rfl
      exact absurd (hdigits '+' List.mem_cons_self) (by decide)
    rw [List.nil_append, withoutSign]
    intro _ _ hcons
    exact absurd (List.cons.inj hcons).1 hplus
  · rfl

theorem readSigned_eq (h : cs ≠ []) : readSigned bound cs = readDigits bound 0 (withoutSign cs) := by
  unfold readSigned withoutSign
  split
  · exact absurd rfl h
  · rfl
  · split
    · next hno => exact absurd rfl (hno _ _)
    · rfl

/-! ### Numbers -/

theorem wordBound_pos : 0 < wordBound := by decide

/-- A text is read as a number exactly if it stands for it. -/
theorem readUnsigned_eq_ok_iff : readUnsigned text = .ok number ↔ Numeral text number := by
  constructor
  · intro hok
    have hne : trimmed text.toList ≠ [] := by
      intro hnil
      rw [readUnsigned, hnil] at hok
      cases hok
    rw [readUnsigned, readSigned_eq hne, readDigits_eq_ok_iff wordBound_pos] at hok
    obtain ⟨hdigits, hvalue, hlt⟩ := hok
    obtain ⟨before, behind, hsplit, hbefore, hbehind⟩ := exists_trimmed text.toList
    obtain ⟨sign, hsign, hsigned⟩ := exists_sign (trimmed text.toList)
    rw [hsigned] at hsplit
    exact .intro hsplit hbefore hbehind hsign (withoutSign_ne_nil hne) hdigits hvalue hlt
  · rintro (@⟨before, sign, digits, behind, hsplit, hbefore, hbehind, hsign, hne, hdigits, hvalue, hlt⟩)
    have hsigned : sign ++ digits ≠ [] := fun hnil => hne (List.append_eq_nil_iff.mp hnil).2
    have hvisible : ∀ c ∈ sign ++ digits, isBlank c = false := by
      intro c hmem
      rcases List.mem_append.mp hmem with hmem | hmem
      · rcases hsign with rfl | rfl
        · cases hmem
        · rw [List.mem_singleton.mp hmem]
          rfl
      · exact isBlank_of_isDigit (hdigits c hmem)
    rw [readUnsigned, hsplit, trimmed_append hbefore hbehind hsigned hvisible, readSigned_eq hsigned,
      withoutSign_append hsign hne hdigits, readDigits_eq_ok_iff wordBound_pos]
    exact ⟨hdigits, hvalue, hlt⟩

/-- A text that is not read as a number is refused for what is wrong with it first. -/
theorem readUnsigned_eq_error_iff : readUnsigned text = .error fault ↔ Unreadable text fault := by
  by_cases hnil : trimmed text.toList = []
  · have hread : readUnsigned text = .error .empty := by rw [readUnsigned, hnil, readSigned]
    rw [hread]
    constructor
    · intro hempty
      cases hempty
      exact .empty (trimmed_eq_nil_iff.mp hnil)
    · rintro (_ | hmisread)
      · rfl
      · rw [hnil] at hmisread
        have herror := hmisread.eq_error wordBound_pos
        cases herror
  · rw [readUnsigned, readSigned_eq hnil, readDigits_eq_error_iff wordBound_pos]
    constructor
    · exact .misread
    · rintro (hblank | hmisread)
      · exact absurd (trimmed_eq_nil_iff.mpr hblank) hnil
      · exact hmisread

/-- A sign alone is taken for a digit that is none. -/
example : readUnsigned " + " = .error .invalidDigit := by decide

end Dispatch.Text
