import LogSweep.Proofs.Call.Statement
import LogSweep.Rules

/-!
# Characters and names as bytes

In a UTF-8 form the bytes inside a character are at least 128, so a character begins behind every
smaller byte and at the start (`Aligned`); a cut at such a place splits no character. The functions
that checked rules name are dotted names as bytes (`Rules.dotted_target`,
`Rules.dotted_replacement`), and two different functions stay different
(`Rules.target_ne_replacement`).
-/

namespace LogSweep

/-! ## Where characters begin -/

/-- Every byte with `p` comes behind a byte with `q`. -/
def Preceded (p q : UInt8 → Prop) (text : Bytes) : Prop :=
  ∀ a b rest, text = a ++ b :: rest → p b → ∃ x, a.getLast? = some x ∧ q x

section
variable {p q : UInt8 → Prop} {a b : Bytes}

/-- Where each of two texts has it, both together do. -/
theorem Preceded.append (ha : Preceded p q a) (hb : Preceded p q b) : Preceded p q (a ++ b) := by
  intro pre x rest h hx
  rcases List.append_eq_append_iff.1 h with ⟨c, rfl, hc⟩ | ⟨c, rfl, hc⟩
  · obtain ⟨y, hy, hq⟩ := hb c x rest hc hx
    exact ⟨y, by simp [List.getLast?_append, hy], hq⟩
  · cases c with
    | nil =>
      obtain ⟨y, hy, -⟩ := hb [] x rest hc.symm hx
      cases hy
    | cons z c =>
      obtain ⟨rfl, rfl⟩ := List.cons.inj hc
      exact ha pre x c rfl hx

/-- The start of such a text is such a text. -/
theorem Preceded.left (h : Preceded p q (a ++ b)) : Preceded p q a := by
  rintro pre x rest rfl hx
  exact h pre x (rest ++ b) (by simp) hx

/-- What begins behind a byte without `q` needs nothing in front of it. -/
theorem Preceded.right (h : Preceded p q (a ++ b)) (ha : ∀ x, a.getLast? = some x → ¬ q x) :
    Preceded p q b := by
  rintro pre x rest rfl hx
  obtain ⟨y, hy, hq⟩ := h (a ++ pre) x rest (by simp) hx
  rw [List.getLast?_append] at hy
  cases hpre : pre.getLast? with
  | some z =>
    rw [hpre] at hy
    exact ⟨z, rfl, by rw [Option.some.inj hy]; exact hq⟩
  | none =>
    rw [hpre] at hy
    exact absurd hq (ha y hy)

end

/-- Every byte inside a character comes behind a byte that is at least 128. -/
def Aligned (text : Bytes) : Prop :=
  ∀ a b rest, text = a ++ b :: rest → Byte.isContinuation b = true →
    ∃ x, a.getLast? = some x ∧ 128 ≤ x

/-- Aligned texts are aligned side by side. -/
theorem Aligned.append {a b : Bytes} (ha : Aligned a) (hb : Aligned b) : Aligned (a ++ b) :=
  Preceded.append ha hb

/-- The start of an aligned text is aligned. -/
theorem Aligned.left {a b : Bytes} (h : Aligned (a ++ b)) : Aligned a :=
  Preceded.left h

/-- A text is aligned behind a byte below 128. -/
theorem Aligned.right {a b : Bytes} (h : Aligned (a ++ b))
    (ha : ∀ x, a.getLast? = some x → x < 128) : Aligned b :=
  Preceded.right h fun x hx => UInt8.not_le.2 (ha x hx)

/-- ASCII is aligned. -/
theorem aligned_of_lt {text : Bytes} (h : ∀ b ∈ text, b < 128) : Aligned text := by
  rintro a b rest rfl hb
  simp only [Byte.isContinuation, Bool.and_eq_true, decide_eq_true_eq] at hb
  exact absurd hb.1 (UInt8.not_le.2 (h b (by simp)))

/-- Behind a byte below 128, and at the start, a cut splits no character. -/
theorem Aligned.isBoundary {a b : Bytes} (h : Aligned (a ++ b))
    (ha : ∀ x, a.getLast? = some x → x < 128) : Bytes.isBoundary (a ++ b).toArray a.length := by
  cases b with
  | nil => simp [Bytes.isBoundary]
  | cons x b =>
    cases hx : Byte.isContinuation x with
    | false => simp [Bytes.isBoundary, hx]
    | true =>
      obtain ⟨y, hy, hle⟩ := h a x b rfl hx
      exact absurd hle (UInt8.not_le.2 (ha y hy))

/-- The UTF-8 form of a character: a byte below 128, or bytes that are at least 128 and of which the
first is not inside a character. -/
theorem utf8EncodeChar_shape (c : Char) :
    (c.toNat < 128 ∧ String.utf8EncodeChar c = [UInt8.ofNat c.toNat]) ∨
      ∃ b rest, String.utf8EncodeChar c = b :: rest ∧ Byte.isContinuation b = false ∧
        ∀ x ∈ b :: rest, 128 ≤ x := by
  have hfirst : ∀ n k : Nat, 192 ≤ k → n + k < 256 →
      Byte.isContinuation (UInt8.ofNat (n + k)) = false ∧ 128 ≤ UInt8.ofNat (n + k) := by
    intro n k hk hlt
    simp only [Byte.isContinuation, UInt8.le_iff_toNat_le, UInt8.lt_iff_toNat_lt,
      UInt8.toNat_ofNat', UInt8.reduceToNat, Nat.reducePow, Nat.mod_eq_of_lt hlt]
    exact ⟨by simp; omega, by omega⟩
  have hlater : ∀ n : Nat, 128 ≤ UInt8.ofNat (n % 64 + 128) := by
    intro n
    simp only [UInt8.le_iff_toNat_le, UInt8.toNat_ofNat', UInt8.reduceToNat, Nat.reducePow]
    omega
  show (c.val.toNat < 128 ∧ _ = [UInt8.ofNat c.val.toNat]) ∨ _
  simp only [String.utf8EncodeChar]
  split
  · exact .inl ⟨by omega, rfl⟩
  · refine .inr ?_
    split
    · obtain ⟨hcont, hle⟩ := hfirst (c.val.toNat / 64 % 32) 192 (by omega) (by omega)
      refine ⟨_, _, rfl, hcont, List.forall_mem_cons.2 ⟨hle, List.forall_mem_singleton.2 ?_⟩⟩
      exact hlater _
    · split
      · obtain ⟨hcont, hle⟩ := hfirst (c.val.toNat / 4096 % 16) 224 (by omega) (by omega)
        refine ⟨_, _, rfl, hcont, List.forall_mem_cons.2 ⟨hle, List.forall_mem_cons.2 ⟨?_,
          List.forall_mem_singleton.2 ?_⟩⟩⟩
        · exact hlater _
        · exact hlater _
      · obtain ⟨hcont, hle⟩ := hfirst (c.val.toNat / 262144 % 8) 240 (by omega) (by omega)
        refine ⟨_, _, rfl, hcont, List.forall_mem_cons.2 ⟨hle, List.forall_mem_cons.2 ⟨?_,
          List.forall_mem_cons.2 ⟨?_, List.forall_mem_singleton.2 ?_⟩⟩⟩⟩
        · exact hlater _
        · exact hlater _
        · exact hlater _

/-- A character is aligned. -/
theorem aligned_utf8EncodeChar (c : Char) : Aligned (String.utf8EncodeChar c) := by
  rcases utf8EncodeChar_shape c with ⟨hc, h⟩ | ⟨b, rest, h, hb, hall⟩
  · rw [h]
    refine aligned_of_lt fun b hb => ?_
    rw [List.mem_singleton.1 hb, UInt8.lt_iff_toNat_lt, UInt8.toNat_ofNat']
    simp only [UInt8.reduceToNat, Nat.reducePow]
    omega
  · rw [h]
    intro a x after hsplit hx
    rcases List.eq_nil_or_concat a with rfl | ⟨init, y, rfl⟩
    · obtain ⟨rfl, rfl⟩ := List.cons.inj hsplit
      rw [hb] at hx
      cases hx
    · exact ⟨y, by simp, hall y (by rw [hsplit]; simp)⟩

/-- The UTF-8 form of a string is aligned. -/
theorem aligned_ofString (s : String) : Aligned (Bytes.ofString s) := by
  unfold Bytes.ofString
  induction s.toList with
  | nil => exact aligned_of_lt (by simp)
  | cons c cs ih =>
    rw [List.flatMap_cons]
    exact (aligned_utf8EncodeChar c).append ih

/-- The bytes of strings put together. -/
theorem ofString_append (s t : String) :
    Bytes.ofString (s ++ t) = Bytes.ofString s ++ Bytes.ofString t := by
  simp [Bytes.ofString]

/-- Different strings have different bytes. -/
theorem ofString_injective {s t : String} (h : Bytes.ofString s = Bytes.ofString t) : s = t := by
  have hutf8 : s.toList.utf8Encode = t.toList.utf8Encode := by
    simp only [List.utf8Encode]
    exact congrArg List.toByteArray h
  have hdecode := congrArg ByteArray.utf8Decode? hutf8
  rw [List.utf8Decode?_utf8Encode, List.utf8Decode?_utf8Encode, Option.some.injEq] at hdecode
  exact String.toList_inj.1 (by simpa using congrArg Array.toList hdecode)

/-- The UTF-8 form of a string is read back as the string. -/
theorem decode?_ofString (s : String) : (Bytes.ofString s).decode? = some s := by
  have hbytes : (⟨(Bytes.ofString s).toArray⟩ : ByteArray) = s.toByteArray := by
    rw [← String.utf8Encode_toList]
    ext1
    simp [List.utf8Encode, Bytes.ofString]
  unfold Bytes.decode? String.fromUTF8?
  rw [hbytes, dif_pos s.isValidUTF8]
  rfl

/-- Bytes that can be read as text are the UTF-8 form of a string. -/
theorem exists_ofString {text : Bytes} (h : text.decode?.isSome = true) :
    ∃ s, text = Bytes.ofString s := by
  unfold Bytes.decode? String.fromUTF8? at h
  split at h
  · next hvalid =>
    obtain ⟨chars, hchars⟩ := hvalid
    have hbytes : (⟨text.toArray⟩ : ByteArray) = text.toByteArray := by
      ext1
      simp
    rw [hbytes] at hchars
    refine ⟨String.ofList chars, ?_⟩
    rw [Bytes.ofString, String.toList_ofList]
    exact List.toByteArray_inj.1 hchars
  · cases h

/-! ## Names -/

namespace Rules

/-- The bytes of a character that can stand in a name are bytes of names. -/
theorem isName_utf8EncodeChar {c : Char} (h : continuesName c = true) :
    ∀ b ∈ String.utf8EncodeChar c, Byte.isName b := by
  have hascii : ∀ n < 128, continuesName (Char.ofNat n) = true →
      Byte.isName (UInt8.ofNat n) = true := by
    decide
  rcases utf8EncodeChar_shape c with ⟨hc, heq⟩ | ⟨b, rest, heq, -, hall⟩
  · rw [heq, List.forall_mem_singleton]
    exact hascii c.toNat hc (by rwa [Char.ofNat_toNat])
  · intro x hx
    rw [heq] at hx
    simp [Byte.isName, hall x hx]

/-- What can begin a name can stand in one. -/
theorem continuesName_of_beginsName {c : Char} (h : beginsName c = true) :
    continuesName c = true := by
  have hascii : ∀ n < 128, beginsName (Char.ofNat n) = true →
      continuesName (Char.ofNat n) = true := by
    decide
  have hlt : c.toNat < 128 := by
    have hupper : c.isUpper = true → c.toNat ≤ 90 := fun h => (of_decide_eq_true h).2
    have hlower : c.isLower = true → c.toNat ≤ 122 := fun h =>
      of_decide_eq_true (Bool.and_eq_true_iff.1 h).2
    have hcases : ((c.isUpper || c.isLower) || c == '_' || c == '$') = true := h
    simp only [Bool.or_eq_true, beq_iff_eq] at hcases
    rcases hcases with ((hc | hc) | rfl) | rfl
    · exact Nat.lt_of_le_of_lt (hupper hc) (by decide)
    · exact Nat.lt_of_le_of_lt (hlower hc) (by decide)
    · decide
    · decide
  have := hascii c.toNat hlt
  rw [Char.ofNat_toNat] at this
  exact this h

/-- The characters of names that are joined by dots. -/
theorem mem_intercalate {parts : List (List Char)} (h : ∀ p ∈ parts, isName p = true) :
    ∀ c ∈ ['.'].intercalate parts, continuesName c = true ∨ c = '.' := by
  have hname : ∀ p, isName p = true → ∀ c ∈ p, continuesName c = true := by
    intro p hp c hc
    cases p with
    | nil => cases hc
    | cons x p =>
      simp only [isName, Bool.and_eq_true, List.all_eq_true] at hp
      rcases List.mem_cons.1 hc with rfl | hc
      · exact continuesName_of_beginsName hp.1
      · exact hp.2 c hc
  induction parts with
  | nil => simp
  | cons p parts ih =>
    intro c hc
    cases parts with
    | nil => exact .inl (hname p (h p (by simp)) c (by simpa using hc))
    | cons q parts =>
      rw [List.intercalate_cons_cons, List.append_assoc, List.mem_append, List.singleton_append,
        List.mem_cons] at hc
      rcases hc with hc | rfl | hc
      · exact .inl (hname p (h p (by simp)) c hc)
      · exact .inr rfl
      · exact ih (fun r hr => h r (List.mem_cons_of_mem _ hr)) c hc

/-- A dotted name is one as bytes. -/
theorem dotted_of_isDottedName {s : String} (h : isDottedName s.toList = true) :
    Dotted (Bytes.ofString s) := by
  rw [isDottedName, List.all_eq_true] at h
  have hjoin : ['.'].intercalate (s.toList.splitOn '.') = s.toList := List.intercalate_splitOn '.'
  have hmem := mem_intercalate h
  rw [hjoin] at hmem
  constructor
  · cases hparts : s.toList.splitOn '.' with
    | nil => exact absurd hparts (List.splitOn_ne_nil '.' s.toList)
    | cons p parts =>
      rw [hparts] at h hjoin
      cases p with
      | nil => exact absurd (h [] (by simp)) (by decide)
      | cons c p =>
        have hc : continuesName c = true := by
          have := h (c :: p) (by simp)
          simp only [isName, Bool.and_eq_true] at this
          exact continuesName_of_beginsName this.1
        obtain ⟨rest, hrest⟩ : ∃ rest, s.toList = c :: rest := by
          rw [← hjoin]
          cases parts with
          | nil => exact ⟨p, by simp⟩
          | cons q parts => exact ⟨_, by rw [List.intercalate_cons_cons]; rfl⟩
        cases henc : String.utf8EncodeChar c with
        | nil => exact absurd henc String.utf8EncodeChar_ne_nil
        | cons b bs =>
          refine ⟨b, bs ++ rest.flatMap String.utf8EncodeChar, ?_,
            isName_utf8EncodeChar hc b (by rw [henc]; simp)⟩
          rw [Bytes.ofString, hrest, List.flatMap_cons, henc]
          rfl
  · intro b hb
    obtain ⟨c, hc, hb⟩ := List.mem_flatMap.1 hb
    rcases hmem c hc with hname | rfl
    · exact .inl (isName_utf8EncodeChar hname b hb)
    · exact .inr (List.mem_singleton.1 hb)

section
variable {rules : Rules} (h : rules.fault? = none)
include h

/-- What checked rules have been checked for. -/
theorem checked : isDottedName rules.target.toList = true ∧
    isDottedName rules.replacement.toList = true ∧ isName rules.keyword.toList = true ∧
      rules.target ≠ rules.replacement := by
  unfold fault? at h
  split at h
  · cases h
  split at h
  · cases h
  split at h
  · cases h
  split at h
  · cases h
  split at h
  · cases h
  simp_all

/-- The target of checked rules is a dotted name. -/
theorem dotted_target : Dotted (.ofString rules.target) :=
  dotted_of_isDottedName (checked h).1

/-- So is the replacement. -/
theorem dotted_replacement : Dotted (.ofString rules.replacement) :=
  dotted_of_isDottedName (checked h).2.1

/-- The keyword is a name as bytes. -/
theorem isName_keyword : ∀ b ∈ Bytes.ofString rules.keyword, Byte.isName b = true := by
  intro b hb
  obtain ⟨c, hc, hb⟩ := List.mem_flatMap.1 hb
  have hname := (checked h).2.2.1
  cases hkeyword : rules.keyword.toList with
  | nil =>
    rw [hkeyword] at hc
    cases hc
  | cons x chars =>
    rw [hkeyword] at hname hc
    simp only [isName, Bool.and_eq_true, List.all_eq_true] at hname
    rcases List.mem_cons.1 hc with rfl | hc
    · exact isName_utf8EncodeChar (continuesName_of_beginsName hname.1) b hb
    · exact isName_utf8EncodeChar (hname.2 c hc) b hb

/-- Checked rules replace a function by another one. -/
theorem target_ne_replacement : Bytes.ofString rules.target ≠ .ofString rules.replacement :=
  fun heq => (checked h).2.2.2 (ofString_injective heq)

end

end Rules

end LogSweep
