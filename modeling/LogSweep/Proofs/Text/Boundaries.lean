import LogSweep.Proofs.Text.Names

/-!
# Where a string can be cut

A place in the UTF-8 form of a string splits no character exactly when the string is two strings put
together there (`isBoundary_ofString_iff`). Behind the first byte of a character all its bytes are
continuation bytes, and no first byte is one, so the test of one byte is enough. Where the form of
one string is found in the form of another, it begins and ends with characters of the other
(`isBoundary_behind_ofString`).
-/

namespace LogSweep

/-- The string is two strings put together at the offset. -/
def Divides (source : String) (offset : Nat) : Prop :=
  ∃ front back, source = front ++ back ∧ (Bytes.ofString front).length = offset

/-- Behind its first byte a character has continuation bytes only. -/
theorem isContinuation_tail_utf8EncodeChar {c : Char} {b : UInt8} {rest : Bytes}
    (h : String.utf8EncodeChar c = b :: rest) : ∀ x ∈ rest, Byte.isContinuation x = true := by
  have hlater : ∀ n : Nat, Byte.isContinuation (UInt8.ofNat (n % 64 + 128)) = true := by
    intro n
    have hlt : n % 64 + 128 < 256 := by omega
    simp only [Byte.isContinuation, UInt8.le_iff_toNat_le, UInt8.lt_iff_toNat_lt,
      UInt8.toNat_ofNat', UInt8.reduceToNat, Nat.reducePow, Nat.mod_eq_of_lt hlt,
      Bool.and_eq_true, decide_eq_true_eq]
    omega
  simp only [String.utf8EncodeChar] at h
  split at h
  · cases h
    simp
  · split at h
    · cases h
      exact List.forall_mem_singleton.2 (hlater _)
    · split at h
      · cases h
        exact List.forall_mem_cons.2 ⟨hlater _, List.forall_mem_singleton.2 (hlater _)⟩
      · cases h
        exact List.forall_mem_cons.2 ⟨hlater _, List.forall_mem_cons.2 ⟨hlater _,
          List.forall_mem_singleton.2 (hlater _)⟩⟩

/-- The first byte of a character is no continuation byte. -/
theorem not_isContinuation_head_utf8EncodeChar {c : Char} {b : UInt8} {rest : Bytes}
    (h : String.utf8EncodeChar c = b :: rest) : Byte.isContinuation b = false := by
  cases hb : Byte.isContinuation b with
  | false => rfl
  | true =>
    obtain ⟨x, hx, -⟩ := aligned_utf8EncodeChar c [] b rest h hb
    cases hx

/-- A text begins at a boundary. -/
theorem isBoundary_zero (cs : List Char) :
    Bytes.isBoundary (cs.flatMap String.utf8EncodeChar).toArray 0 = true := by
  cases cs with
  | nil => rfl
  | cons c cs =>
    cases henc : String.utf8EncodeChar c with
    | nil => exact absurd henc String.utf8EncodeChar_ne_nil
    | cons b rest =>
      simp [Bytes.isBoundary, henc, not_isContinuation_head_utf8EncodeChar henc]

/-- Whether a place behind some bytes splits a character is decided by what follows them. -/
theorem isBoundary_append (front back : Bytes) (offset : Nat) :
    Bytes.isBoundary (front ++ back).toArray (front.length + offset) =
      Bytes.isBoundary back.toArray offset := by
  have hget : (front ++ back)[front.length + offset]? = back[offset]? := by
    rw [List.getElem?_append_right (Nat.le_add_right _ _), Nat.add_sub_cancel_left]
  simp only [Bytes.isBoundary, List.getElem?_toArray, hget, List.size_toArray, List.length_append,
    Nat.add_left_cancel_iff, beq_eq_decide]

/-- A place splits no character exactly when the characters are cut there. -/
theorem isBoundary_flatMap_iff (cs : List Char) (offset : Nat) :
    Bytes.isBoundary (cs.flatMap String.utf8EncodeChar).toArray offset = true ↔
      ∃ front back, cs = front ++ back ∧
        (front.flatMap String.utf8EncodeChar).length = offset := by
  constructor
  · intro h
    induction cs generalizing offset with
    | nil =>
      have hzero : offset = 0 := by simpa [Bytes.isBoundary] using h
      exact ⟨[], [], rfl, hzero.symm⟩
    | cons c cs ih =>
      rw [List.flatMap_cons] at h
      by_cases hle : (String.utf8EncodeChar c).length ≤ offset
      · obtain ⟨rest, rfl⟩ := Nat.exists_eq_add_of_le hle
        rw [isBoundary_append] at h
        obtain ⟨front, back, rfl, rfl⟩ := ih rest h
        exact ⟨c :: front, back, rfl, by simp⟩
      · cases offset with
        | zero => exact ⟨[], c :: cs, rfl, rfl⟩
        | succ n =>
          -- inside of the character the byte is a continuation byte
          cases henc : String.utf8EncodeChar c with
          | nil => exact absurd henc String.utf8EncodeChar_ne_nil
          | cons b rest =>
            rw [henc, List.length_cons] at hle
            have hn : n < rest.length := by omega
            have hbyte := isContinuation_tail_utf8EncodeChar henc _ (List.getElem_mem hn)
            simp [Bytes.isBoundary, henc, List.getElem?_append_left hn, hn, hbyte] at h
  · rintro ⟨front, back, rfl, rfl⟩
    rw [List.flatMap_append]
    exact (isBoundary_append _ _ 0).trans (isBoundary_zero back)

/-- A place in a string splits no character exactly when the string is cut there. -/
theorem isBoundary_ofString_iff (source : String) (offset : Nat) :
    Bytes.isBoundary (Bytes.ofString source).toArray offset = true ↔ Divides source offset := by
  rw [Bytes.ofString, isBoundary_flatMap_iff]
  constructor
  · rintro ⟨front, back, hsplit, hlen⟩
    refine ⟨String.ofList front, String.ofList back, ?_, ?_⟩
    · rw [← String.ofList_append, ← hsplit, String.ofList_toList]
    · rwa [Bytes.ofString, String.toList_ofList]
  · rintro ⟨front, back, rfl, hlen⟩
    exact ⟨front.toList, back.toList, String.toList_append, hlen⟩

/-- No character is the beginning of another one. -/
theorem utf8EncodeChar_append_inj {c d : Char} {x y : Bytes}
    (h : String.utf8EncodeChar c ++ x = String.utf8EncodeChar d ++ y) : c = d ∧ x = y := by
  have hdecode : ∀ (e : Char) (z : Bytes),
      (String.utf8EncodeChar e ++ z).toByteArray.utf8DecodeChar? 0 = some e := by
    intro e z
    rw [List.toByteArray_append]
    exact ByteArray.utf8DecodeChar?_utf8EncodeChar_append
  have hsame : some c = some d := by rw [← hdecode c x, h, hdecode]
  cases hsame
  exact ⟨rfl, List.append_cancel_left h⟩

/-- Characters whose form begins with the form of others begin with these. -/
theorem exists_append_of_flatMap {cs ts : List Char} {rest : Bytes}
    (h : cs.flatMap String.utf8EncodeChar = ts.flatMap String.utf8EncodeChar ++ rest) :
    ∃ more, cs = ts ++ more := by
  induction ts generalizing cs with
  | nil => exact ⟨cs, rfl⟩
  | cons t ts ih =>
    rw [List.flatMap_cons, List.append_assoc] at h
    cases cs with
    | nil =>
      rw [List.flatMap_nil, List.nil_eq, List.append_eq_nil_iff] at h
      exact absurd h.1 String.utf8EncodeChar_ne_nil
    | cons c cs =>
      rw [List.flatMap_cons] at h
      obtain ⟨rfl, hrest⟩ := utf8EncodeChar_append_inj h
      obtain ⟨more, rfl⟩ := ih hrest
      exact ⟨more, rfl⟩

/-- The form of a string that stands in the form of another ends with a character of the other. -/
theorem isBoundary_behind_ofString {source target : String} {front rest : Bytes}
    (hne : Bytes.ofString target ≠ [])
    (h : Bytes.ofString source = front ++ (Bytes.ofString target ++ rest)) :
    Bytes.isBoundary (Bytes.ofString source).toArray (front ++ Bytes.ofString target).length =
      true := by
  have hstart : Bytes.isBoundary (Bytes.ofString source).toArray front.length = true := by
    rw [h]
    refine (isBoundary_append front _ 0).trans ?_
    have hfirst : Bytes.isBoundary (Bytes.ofString target).toArray 0 = true :=
      isBoundary_zero target.toList
    cases hbytes : Bytes.ofString target with
    | nil => exact absurd hbytes hne
    | cons b bytes =>
      rw [hbytes] at hfirst
      exact hfirst
  obtain ⟨lead, back, hsource, hlead⟩ := (isBoundary_ofString_iff source _).1 hstart
  have hback : Bytes.ofString back = Bytes.ofString target ++ rest := by
    rw [hsource, ofString_append] at h
    exact (List.append_inj h hlead).2
  obtain ⟨more, hmore⟩ := exists_append_of_flatMap hback
  refine (isBoundary_ofString_iff source _).2 ⟨lead ++ target, String.ofList more, ?_, ?_⟩
  · rw [hsource, String.append_assoc]
    congr 1
    rw [← String.toList_inj, hmore, String.toList_append, String.toList_ofList]
  · rw [ofString_append, List.length_append, hlead, List.length_append]

/-- A piece of a string that splits no character is a string. -/
theorem exists_ofString_slice {source : String} {front piece rest : Bytes}
    (h : Bytes.ofString source = front ++ (piece ++ rest))
    (hstart : Bytes.isBoundary (Bytes.ofString source).toArray front.length = true)
    (hstop : Bytes.isBoundary (Bytes.ofString source).toArray (front ++ piece).length = true) :
    ∃ s, piece = Bytes.ofString s := by
  obtain ⟨lead, back, hsource, hlead⟩ := (isBoundary_ofString_iff source _).1 hstart
  have hback : Bytes.ofString back = piece ++ rest := by
    rw [hsource, ofString_append] at h
    exact (List.append_inj h hlead).2
  have hcut : Bytes.isBoundary (Bytes.ofString back).toArray piece.length = true := by
    rw [hsource, ofString_append, List.length_append, ← hlead, isBoundary_append] at hstop
    exact hstop
  obtain ⟨s, more, hs, hlength⟩ := (isBoundary_ofString_iff back _).1 hcut
  rw [hs, ofString_append] at hback
  exact ⟨s, (List.append_inj hback hlength).1.symm⟩

end LogSweep
