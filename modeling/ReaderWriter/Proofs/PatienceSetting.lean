import Mathlib.Data.List.Basic
import Mathlib.Tactic.SplitIfs
import ReaderWriter.Patience
import ReaderWriter.Proofs.Decimal

/-!
# Which texts set a patience

A setting is a text, and a text is stored in octets. The ten digits take one octet each,
and no octet of any other character is one of theirs. So the digits in front of a text are
the digits in front of its octets, and what is said here of octets says the same of
characters.

A text is looked at from the left. It is blamed for the first of two offences: an octet
that is no digit, or digits whose value is out of range by then. Which of them it is can be
told without going from octet to octet, because what follows an offence does not matter.
-/

namespace ReaderWriter.Patience

variable {c : Char} {cs : List Char} {text message : String} {os ds rest : List UInt8}

/-- The octets in which a text is stored. -/
def octets (text : String) : List UInt8 :=
  text.toByteArray.data.toList

/-- The octet stands for one of the ten digits. -/
def isDigit (o : UInt8) : Bool :=
  48 ≤ o && o ≤ 57

/-- The value of a run of digits, without any bound. -/
def value (os : List UInt8) : Nat :=
  os.foldl (fun v o => 10 * v + (o.toNat - 48)) 0

/-! ## Characters and octets -/

theorem octets_eq (text : String) : octets text = text.toList.flatMap String.utf8EncodeChar := by
  rw [octets, ← String.utf8Encode_toList, List.utf8Encode, List.data_toByteArray]

/-- A digit takes one octet, which shows its number. -/
theorem utf8EncodeChar_of_isDigit (h : c.isDigit = true) :
    String.utf8EncodeChar c = [UInt8.ofNat c.toNat] := by
  have hle : c.val.toNat ≤ 127 := Nat.le_trans (Decimal.toNat_of_isDigit h).2 (by decide)
  simp only [String.utf8EncodeChar, if_pos hle]
  rfl

theorem toNat_ofNat_of_isDigit (h : c.isDigit = true) : (UInt8.ofNat c.toNat).toNat = c.toNat := by
  rw [UInt8.toNat_ofNat']
  exact Nat.mod_eq_of_lt (Nat.lt_of_le_of_lt (Decimal.toNat_of_isDigit h).2 (by decide))

theorem isDigit_ofNat (h : c.isDigit = true) : isDigit (UInt8.ofNat c.toNat) = true := by
  simpa [isDigit, UInt8.le_iff_toNat_le, toNat_ofNat_of_isDigit h] using Decimal.toNat_of_isDigit h

/-- The first octet of any other character is none of theirs. -/
theorem utf8EncodeChar_of_not_isDigit (h : ¬c.isDigit = true) :
    ∃ o rest, String.utf8EncodeChar c = o :: rest ∧ isDigit o = false := by
  have hout : c.val.toNat < 48 ∨ 57 < c.val.toNat := by
    by_contra hin
    rw [not_or, Nat.not_lt, Nat.not_lt] at hin
    exact h (by simpa [Char.isDigit, UInt32.le_iff_toNat_le] using hin)
  have hlead : ∀ v : Nat, v < 256 → v < 48 ∨ 57 < v → isDigit (UInt8.ofNat v) = false := by
    intro v hv hout
    have htoNat : (UInt8.ofNat v).toNat = v := by
      rw [UInt8.toNat_ofNat']
      exact Nat.mod_eq_of_lt hv
    simp [isDigit, UInt8.le_iff_toNat_le, htoNat]
    omega
  -- A character of more than one octet begins with an octet of 192 or more.
  simp only [String.utf8EncodeChar]
  split
  · exact ⟨_, _, rfl, hlead _ (by omega) hout⟩
  · split
    · exact ⟨_, _, rfl, hlead _ (by omega) (by omega)⟩
    · split
      · exact ⟨_, _, rfl, hlead _ (by omega) (by omega)⟩
      · exact ⟨_, _, rfl, hlead _ (by omega) (by omega)⟩

/-- The digits in front of a text are those in front of its octets. -/
theorem takeWhile_flatMap (cs : List Char) :
    (cs.flatMap String.utf8EncodeChar).takeWhile isDigit =
      (Decimal.run cs).map fun d => UInt8.ofNat d.toNat := by
  induction cs with
  | nil => rfl
  | cons c rest ih =>
      rw [List.flatMap_cons]
      by_cases hc : c.isDigit = true
      · have hrun : Decimal.run (c :: rest) = c :: Decimal.run rest :=
          List.takeWhile_cons_of_pos hc
        rw [utf8EncodeChar_of_isDigit hc, List.singleton_append,
          List.takeWhile_cons_of_pos (isDigit_ofNat hc), ih, hrun, List.map_cons]
      · have hrun : Decimal.run (c :: rest) = [] := List.takeWhile_cons_of_neg hc
        obtain ⟨o, more, hencode, ho⟩ := utf8EncodeChar_of_not_isDigit hc
        rw [hencode, List.cons_append, List.takeWhile_cons_of_neg (by simp [ho]), hrun,
          List.map_nil]

/-- What follows the digits is something of both or of neither. -/
theorem dropWhile_flatMap (cs : List Char) :
    (cs.flatMap String.utf8EncodeChar).dropWhile isDigit =
      (Decimal.afterRun cs).flatMap String.utf8EncodeChar := by
  induction cs with
  | nil => rfl
  | cons c rest ih =>
      rw [List.flatMap_cons]
      by_cases hc : c.isDigit = true
      · have hafter : Decimal.afterRun (c :: rest) = Decimal.afterRun rest :=
          List.dropWhile_cons_of_pos hc
        rw [utf8EncodeChar_of_isDigit hc, List.singleton_append,
          List.dropWhile_cons_of_pos (isDigit_ofNat hc), ih, hafter]
      · have hafter : Decimal.afterRun (c :: rest) = c :: rest := List.dropWhile_cons_of_neg hc
        obtain ⟨o, more, hencode, ho⟩ := utf8EncodeChar_of_not_isDigit hc
        rw [hafter, List.flatMap_cons, hencode, List.cons_append,
          List.dropWhile_cons_of_neg (by simp [ho])]

theorem value_map (h : ∀ c ∈ cs, c.isDigit = true) :
    value (cs.map fun d => UInt8.ofNat d.toNat) = Nat.ofDigitChars 10 cs 0 := by
  rw [value, List.foldl_map, Nat.ofDigitChars_eq_foldl]
  refine List.foldl_ext _ _ _ fun v c hc => ?_
  rw [toNat_ofNat_of_isDigit (h c hc)]
  rfl

/-- A setting is read by its octets. -/
theorem ofText_eq (text : String) :
    ofText text =
      if octets text = [] then .error .empty
      else if greatest < value ((octets text).takeWhile isDigit) then .error .overflow
      else if (octets text).dropWhile isDigit = [] then
        .ok (value ((octets text).takeWhile isDigit))
      else .error .notDecimal := by
  have hnil : ∀ cs : List Char, cs.flatMap String.utf8EncodeChar = [] ↔ cs = [] := by
    intro cs
    cases cs with
    | nil => simp
    | cons c rest => simp [String.utf8EncodeChar_ne_nil]
  have hdigits : ∀ c ∈ Decimal.run text.toList, c.isDigit = true :=
    fun c hc => List.mem_takeWhile_imp hc
  rw [octets_eq, takeWhile_flatMap, dropWhile_flatMap, value_map hdigits]
  simp only [hnil]
  cases htext : text.toList with
  | nil => simp [ofText, htext]
  | cons c rest =>
      simp only [ofText, htext, Decimal.read_eq, if_neg (List.cons_ne_nil c rest)]
      split_ifs <;> rfl

/-! ## Runs of digits -/

theorem value_append (ds rest : List UInt8) : value ds ≤ value (ds ++ rest) := by
  have hgrow : ∀ v, v ≤ rest.foldl (fun v o => 10 * v + (o.toNat - 48)) v := by
    induction rest with
    | nil => exact Nat.le_refl
    | cons o rest ih =>
        intro v
        have hstep : v ≤ 10 * v + (o.toNat - 48) := by omega
        exact Nat.le_trans hstep (ih _)
  rw [value, value, List.foldl_append]
  exact hgrow _

/-- The digits in front of something else. -/
theorem takeWhile_append_cons {o : UInt8} (hds : ∀ d ∈ ds, isDigit d = true)
    (ho : isDigit o = false) (rest : List UInt8) :
    (ds ++ o :: rest).takeWhile isDigit = ds ∧ (ds ++ o :: rest).dropWhile isDigit = o :: rest := by
  have hno : ¬isDigit o = true := by simp [ho]
  constructor
  · rw [List.takeWhile_append_of_pos hds, List.takeWhile_cons_of_neg hno, List.append_nil]
  · rw [List.dropWhile_append_of_pos hds, List.dropWhile_cons_of_neg hno]

/-- The digits in front are followed by nothing or by something else. -/
theorem exists_of_dropWhile_ne_nil (h : os.dropWhile isDigit ≠ []) :
    ∃ o rest, os = os.takeWhile isDigit ++ o :: rest ∧ isDigit o = false := by
  obtain ⟨o, rest, hdrop⟩ := List.exists_cons_of_ne_nil h
  refine ⟨o, rest, ?_, ?_⟩
  · rw [← hdrop, List.takeWhile_append_dropWhile]
  · have hhead := List.head?_dropWhile_not isDigit os
    rwa [hdrop] at hhead

/-- Some digits are out of range just if all digits in front are. -/
theorem exceeds_iff (bound : Nat) (os : List UInt8) :
    bound < value (os.takeWhile isDigit) ↔
      ∃ ds rest, os = ds ++ rest ∧ (∀ d ∈ ds, isDigit d = true) ∧ bound < value ds := by
  constructor
  · intro h
    exact ⟨_, _, List.takeWhile_append_dropWhile.symm, fun d hd => List.mem_takeWhile_imp hd, h⟩
  · rintro ⟨ds, rest, rfl, hds, h⟩
    rw [List.takeWhile_append_of_pos hds]
    exact Nat.lt_of_lt_of_le h (value_append ds _)

/-! ## The verdict on a setting -/

/-- The text is refused with a message. -/
def Refused (text message : String) : Prop :=
  ∃ fault, ofText text = .error fault ∧ fault.message = message

/-- What a text is read as, by its octets. -/
structure Verdict (text : String) : Prop where
  accepted : ∀ v, ofText text = .ok v ↔
    octets text ≠ [] ∧ (∀ o ∈ octets text, isDigit o = true) ∧ value (octets text) = v ∧
      v ≤ 4294967295
  empty : Refused text "CRWWP_READER_PATIENCE is empty" ↔ text = ""
  /-- Digits within the range, and then something else. -/
  notDecimal : Refused text "CRWWP_READER_PATIENCE must be a decimal integer" ↔
    ∃ ds o rest, octets text = ds ++ o :: rest ∧ (∀ d ∈ ds, isDigit d = true) ∧
      isDigit o = false ∧ value ds ≤ 4294967295
  /-- Digits beyond the range, and then anything at all. -/
  overflow : Refused text "CRWWP_READER_PATIENCE overflows u32" ↔
    ∃ ds rest, octets text = ds ++ rest ∧ (∀ d ∈ ds, isDigit d = true) ∧ 4294967295 < value ds

/-- The messages tell the faults apart. -/
theorem Fault.eq_of_message {fault fault' : Fault} (h : fault.message = fault'.message) :
    fault = fault' := by
  cases fault <;> cases fault' <;> simp [Fault.message] at h ⊢

theorem refused_iff (text : String) (fault : Fault) :
    Refused text fault.message ↔ ofText text = .error fault := by
  constructor
  · rintro ⟨fault', htext, hmessage⟩
    rw [htext, Fault.eq_of_message hmessage]
  · intro h
    exact ⟨fault, h, rfl⟩

theorem octets_eq_nil_iff (text : String) : octets text = [] ↔ text = "" := by
  rw [octets_eq, List.flatMap_eq_nil_iff, ← String.toList_eq_nil_iff]
  constructor
  · intro h
    exact List.eq_nil_iff_forall_not_mem.mpr fun c hc => String.utf8EncodeChar_ne_nil (h c hc)
  · intro h c hc
    rw [h] at hc
    cases hc

theorem ofText_eq_ok_iff (text : String) (v : Nat) : ofText text = .ok v ↔
    octets text ≠ [] ∧ (∀ o ∈ octets text, isDigit o = true) ∧ value (octets text) = v ∧
      v ≤ greatest := by
  rw [ofText_eq]
  constructor
  · intro h
    split_ifs at h with hnil hover hrest
    have hall := List.dropWhile_eq_nil_iff.mp hrest
    rw [List.takeWhile_eq_self_iff.mpr hall] at h hover
    cases h
    exact ⟨hnil, hall, rfl, Nat.le_of_not_lt hover⟩
  · rintro ⟨hne, hall, rfl, hle⟩
    rw [List.takeWhile_eq_self_iff.mpr hall, if_neg hne, if_neg (Nat.not_lt_of_le hle),
      if_pos (List.dropWhile_eq_nil_iff.mpr hall)]

theorem ofText_eq_empty_iff (text : String) : ofText text = .error .empty ↔ text = "" := by
  rw [ofText_eq, ← octets_eq_nil_iff]
  split_ifs <;> simp [*]

theorem ofText_eq_notDecimal_iff (text : String) : ofText text = .error .notDecimal ↔
    ∃ ds o rest, octets text = ds ++ o :: rest ∧ (∀ d ∈ ds, isDigit d = true) ∧
      isDigit o = false ∧ value ds ≤ greatest := by
  rw [ofText_eq]
  constructor
  · intro h
    split_ifs at h with hnil hover hrest
    · cases h
    · cases h
    · obtain ⟨o, rest, hos, ho⟩ := exists_of_dropWhile_ne_nil hrest
      exact ⟨_, o, rest, hos, fun d hd => List.mem_takeWhile_imp hd, ho, Nat.le_of_not_lt hover⟩
  · rintro ⟨ds, o, rest, hos, hds, ho, hle⟩
    obtain ⟨htake, hdrop⟩ := takeWhile_append_cons hds ho rest
    rw [hos, htake, hdrop, if_neg (by simp), if_neg (Nat.not_lt_of_le hle), if_neg (by simp)]

theorem ofText_eq_overflow_iff (text : String) : ofText text = .error .overflow ↔
    ∃ ds rest, octets text = ds ++ rest ∧ (∀ d ∈ ds, isDigit d = true) ∧ greatest < value ds := by
  rw [ofText_eq, ← exceeds_iff]
  constructor
  · intro h
    split_ifs at h with hnil hover
    · cases h
    · exact hover
    · cases h
  · intro hover
    have hne : octets text ≠ [] := by
      intro hnil
      rw [hnil] at hover
      exact absurd hover (by decide)
    rw [if_neg hne, if_pos hover]

/-- Digits in characters, some zeros in front of them, are read as the number they write. -/
theorem ofText_toString (zeros : Nat) (n : UInt32) :
    ofText (String.ofList (List.replicate zeros '0') ++ toString n) = .ok n.toNat := by
  have htext : (String.ofList (List.replicate zeros '0') ++ toString n).toList =
      List.replicate zeros '0' ++ (toString n.toNat).toList := by
    rw [String.toList_append, String.toList_ofList]
    rfl
  have hdigits : ∀ d ∈ List.replicate zeros '0' ++ (toString n.toNat).toList,
      d.isDigit = true := by
    intro d hd
    obtain hd | hd := List.mem_append.mp hd
    · rw [List.eq_of_mem_replicate hd]
      rfl
    · exact Decimal.isDigit_of_mem_toString hd
  have hvalue : Nat.ofDigitChars 10 (List.replicate zeros '0' ++ (toString n.toNat).toList) 0 =
      n.toNat := by
    rw [Nat.ofDigitChars_append, Nat.ofDigitChars_replicate_zero, Nat.mul_zero,
      Decimal.ofDigitChars_toString]
  have hle : n.toNat ≤ greatest := Nat.le_of_lt_succ n.toNat_lt
  have hread : Decimal.read greatest (List.replicate zeros '0' ++ (toString n.toNat).toList) =
      .ok n.toNat :=
    Decimal.read_eq_ok_iff.mpr ⟨hdigits, hvalue, hle⟩
  have hne : List.replicate zeros '0' ++ (toString n.toNat).toList ≠ [] :=
    List.append_ne_nil_of_right_ne_nil _ (Decimal.toString_ne_nil _)
  obtain ⟨c, rest, hcons⟩ := List.exists_cons_of_ne_nil hne
  rw [hcons] at htext hread
  simp only [ofText, htext, hread]

/-- Every text is read as its octets say: a number just if they are digits, one at least, and
within the range; otherwise it is blamed for what comes first. In particular a number can be
read back as it is written, behind any number of zeros. -/
theorem setting_judged :
    (∀ text, Verdict text) ∧
      ∀ (zeros : Nat) (n : UInt32),
        ofText (String.ofList (List.replicate zeros '0') ++ toString n) = .ok n.toNat := by
  refine ⟨fun text => ⟨ofText_eq_ok_iff text, ?_, ?_, ?_⟩, ofText_toString⟩
  · exact (refused_iff text .empty).trans (ofText_eq_empty_iff text)
  · exact (refused_iff text .notDecimal).trans (ofText_eq_notDecimal_iff text)
  · exact (refused_iff text .overflow).trans (ofText_eq_overflow_iff text)

end ReaderWriter.Patience
