import ChomskyChart.Text.Lines

namespace ChomskyChart.Text

def encode (text : List Char) : List UInt8 :=
  text.flatMap String.utf8EncodeChar

@[simp] theorem encode_nil : encode [] = [] := rfl

@[simp] theorem encode_cons (c : Char) (text : List Char) :
    encode (c :: text) = String.utf8EncodeChar c ++ encode text := rfl

@[simp] theorem encode_append (first second : List Char) :
    encode (first ++ second) = encode first ++ encode second :=
  List.flatMap_append

theorem utf8Encode_eq (text : List Char) :
    text.utf8Encode.data.toList = encode text := by
  rw [List.utf8Encode, List.toList_data_toByteArray]
  rfl

theorem decode?_eq_some_iff_encode {bytes : List UInt8} {text : List Char} :
    decode? bytes = some text ↔ bytes = encode text := by
  rw [decode?_eq_some_iff, utf8Encode_eq]

section Signs

theorem utf8EncodeChar_small {c : Char} (hsmall : c.toNat < 128) :
    String.utf8EncodeChar c = [UInt8.ofNat c.toNat] :=
  if_pos (Nat.le_of_lt_succ hsmall)

/-- The longer encodings begin with a byte of at least 192, and go on with bytes
of 128 to 191. -/
theorem le_of_mem_utf8EncodeChar {c : Char} (hlarge : 128 ≤ c.toNat) {byte : UInt8}
    (hbyte : byte ∈ String.utf8EncodeChar c) : 128 ≤ byte.toNat := by
  have hlong : ¬ c.val.toNat ≤ 0x7f := Nat.not_le_of_lt hlarge
  simp only [String.utf8EncodeChar, if_neg hlong] at hbyte
  split at hbyte
  · simp only [List.mem_cons, List.not_mem_nil, or_false] at hbyte
    rcases hbyte with rfl | rfl <;> rw [UInt8.toNat_ofNat'] <;> omega
  · split at hbyte
    · simp only [List.mem_cons, List.not_mem_nil, or_false] at hbyte
      rcases hbyte with rfl | rfl | rfl <;> rw [UInt8.toNat_ofNat'] <;> omega
    · simp only [List.mem_cons, List.not_mem_nil, or_false] at hbyte
      rcases hbyte with rfl | rfl | rfl | rfl <;> rw [UInt8.toNat_ofNat'] <;> omega

/-- A character of a single byte, which is found in the bytes of no other
character. -/
structure OneByte (sign : Char) (byte : UInt8) : Prop where
  encode_eq : String.utf8EncodeChar sign = [byte]
  eq_of_mem : ∀ c, byte ∈ String.utf8EncodeChar c → c = sign

theorem oneByte {sign : Char} (hsmall : sign.toNat < 128) :
    OneByte sign (UInt8.ofNat sign.toNat) := by
  have hnumber : ∀ n < 128, (UInt8.ofNat n).toNat = n := by
    intro n hn
    rw [UInt8.toNat_ofNat']
    exact Nat.mod_eq_of_lt (by omega)
  refine ⟨utf8EncodeChar_small hsmall, ?_⟩
  intro c hmem
  by_cases hc : c.toNat < 128
  · rw [utf8EncodeChar_small hc, List.mem_singleton] at hmem
    have hequal := congrArg UInt8.toNat hmem
    rw [hnumber _ hsmall, hnumber _ hc] at hequal
    exact Char.toNat_inj.mp hequal.symm
  · have hlarge := le_of_mem_utf8EncodeChar (Nat.le_of_not_lt hc) hmem
    rw [hnumber _ hsmall] at hlarge
    omega

theorem oneByte_feed : OneByte '\n' 10 :=
  oneByte (by decide)

theorem oneByte_return : OneByte '\r' 13 :=
  oneByte (by decide)

end Signs

theorem splitOn_append_of_not_mem {α : Type} [DecidableEq α] {separator : α}
    {front : List α} (hfront : separator ∉ front) (rest : List α) :
    (front ++ rest).splitOn separator =
      (rest.splitOn separator).modifyHead (front ++ ·) := by
  obtain ⟨first, others, hsplit⟩ :=
    List.exists_cons_of_ne_nil (List.splitOn_ne_nil separator rest)
  induction front with
  | nil =>
      rw [List.nil_append, hsplit]
      rfl
  | cons head tail ih =>
      rw [List.mem_cons, not_or] at hfront
      have hhead : ¬ (head == separator) = true := fun heq =>
        hfront.1 (beq_iff_eq.mp heq).symm
      rw [List.cons_append, List.splitOn_cons_eq_if_modifyHead, if_neg hhead,
        ih hfront.2, hsplit]
      rfl

namespace OneByte

variable {sign : Char} {byte : UInt8}

theorem not_mem (hone : OneByte sign byte) {c : Char} (hne : c ≠ sign) :
    byte ∉ String.utf8EncodeChar c :=
  fun hmem => hne (hone.eq_of_mem c hmem)

theorem splitOn_encode (hone : OneByte sign byte) (text : List Char) :
    (encode text).splitOn byte = (text.splitOn sign).map encode := by
  induction text with
  | nil => rfl
  | cons c rest ih =>
      obtain ⟨first, others, hsplit⟩ :=
        List.exists_cons_of_ne_nil (List.splitOn_ne_nil sign rest)
      rw [hsplit] at ih
      rw [encode_cons, List.splitOn_cons_eq_if_modifyHead, hsplit]
      by_cases hsign : c = sign
      · rw [hsign, hone.encode_eq, List.singleton_append,
          List.splitOn_cons_eq_if_modifyHead, ih]
        simp
      · rw [splitOn_append_of_not_mem (hone.not_mem hsign), ih]
        simp [hsign]

theorem withoutReturn_encode (hone : OneByte sign byte) (line : List Char) :
    withoutReturn byte (encode line) = encode (withoutReturn sign line) := by
  rcases List.eq_nil_or_concat line with rfl | ⟨front, c, rfl⟩
  · rfl
  · rw [List.concat_eq_append, encode_append, encode_cons, encode_nil,
      List.append_nil]
    by_cases hsign : c = sign
    · rw [hsign, hone.encode_eq]
      simp [withoutReturn]
    · have hlast :
          (encode front ++ String.utf8EncodeChar c).getLast? ≠ some byte := by
        rw [List.getLast?_append,
          List.getLast?_eq_some_getLast String.utf8EncodeChar_ne_nil,
          Option.some_or]
        intro hlast
        apply hone.not_mem hsign
        rw [← Option.some.inj hlast]
        exact List.getLast_mem _
      rw [withoutReturn, if_neg hlast, withoutReturn, if_neg (by simpa using hsign)]
      simp

end OneByte

theorem byteLines_encode (text : List Char) :
    byteLines (encode text) = (lines text).map encode := by
  have hreturn : withoutReturn 13 ∘ encode = encode ∘ withoutReturn '\r' :=
    funext oneByte_return.withoutReturn_encode
  rw [byteLines, lines, linesAt, linesAt, oneByte_feed.splitOn_encode]
  simp only [List.map_append, List.map_map, ← List.map_dropLast, hreturn]
  congr 1
  rw [List.getLast?_map]
  cases (text.splitOn '\n').getLast? with
  | none => rfl
  | some piece =>
      cases piece with
      | nil => rfl
      | cons c rest => simp

def IsUTF8 (bytes : List UInt8) : Prop :=
  ∃ text, bytes = encode text

theorem isUTF8_iff_isSome {bytes : List UInt8} :
    (decode? bytes).isSome = true ↔ IsUTF8 bytes := by
  simp only [Option.isSome_iff_exists, decode?_eq_some_iff_encode, IsUTF8]

instance (bytes : List UInt8) : Decidable (IsUTF8 bytes) :=
  decidable_of_iff _ isUTF8_iff_isSome

namespace IsUTF8

theorem nil : IsUTF8 [] :=
  ⟨[], rfl⟩

theorem append {first second : List UInt8} (hfirst : IsUTF8 first)
    (hsecond : IsUTF8 second) :
    IsUTF8 (first ++ second) := by
  obtain ⟨firstText, rfl⟩ := hfirst
  obtain ⟨secondText, rfl⟩ := hsecond
  exact ⟨firstText ++ secondText, (encode_append _ _).symm⟩

theorem singleton {sign : Char} {byte : UInt8} (hone : OneByte sign byte) :
    IsUTF8 [byte] :=
  ⟨[sign], by rw [encode_cons, encode_nil, List.append_nil, hone.encode_eq]⟩

theorem intercalate {separator : List UInt8} (hseparator : IsUTF8 separator)
    {pieces : List (List UInt8)} (hpieces : ∀ piece ∈ pieces, IsUTF8 piece) :
    IsUTF8 (separator.intercalate pieces) := by
  induction pieces with
  | nil => exact nil
  | cons piece rest ih =>
      have hpiece := hpieces piece List.mem_cons_self
      have hrest :=
        ih fun other hother => hpieces other (List.mem_cons_of_mem _ hother)
      cases rest with
      | nil => simpa using hpiece
      | cons next others =>
          rw [List.intercalate_cons_cons]
          exact (hpiece.append hseparator).append hrest

theorem of_withoutReturn {line : List UInt8}
    (hline : IsUTF8 (withoutReturn 13 line)) :
    IsUTF8 line := by
  unfold withoutReturn at hline
  split at hline
  · rename_i hlast
    obtain ⟨front, rfl⟩ := List.getLast?_eq_some_iff.mp hlast
    rw [List.dropLast_concat] at hline
    exact hline.append (singleton oneByte_return)
  · exact hline

end IsUTF8

theorem isUTF8_iff_forall_byteLines {bytes : List UInt8} :
    IsUTF8 bytes ↔ ∀ line ∈ byteLines bytes, IsUTF8 line := by
  apply Iff.intro
  · intro hbytes line hline
    obtain ⟨text, rfl⟩ := hbytes
    rw [byteLines_encode] at hline
    obtain ⟨piece, _, rfl⟩ := List.mem_map.mp hline
    exact ⟨piece, rfl⟩
  · intro hlines
    -- a line is a piece without its carriage return, or the last piece if that
    -- is not empty
    have hpieces : ∀ piece ∈ bytes.splitOn 10, IsUTF8 piece := by
      have hne := List.splitOn_ne_nil 10 bytes
      intro piece hpiece
      rw [← List.dropLast_concat_getLast hne, List.mem_append,
        List.mem_singleton] at hpiece
      rcases hpiece with hended | hlast
      · apply IsUTF8.of_withoutReturn
        exact hlines _ (List.mem_append_left _ (List.mem_map_of_mem hended))
      · by_cases hnil : piece = []
        · rw [hnil]
          exact IsUTF8.nil
        · apply hlines
          apply List.mem_append_right
          rw [List.getLast?_eq_some_getLast hne, ← hlast]
          simpa using hnil
    have hjoined : [10].intercalate (bytes.splitOn 10) = bytes :=
      List.intercalate_splitOn 10
    rw [← hjoined]
    exact IsUTF8.intercalate (IsUTF8.singleton oneByte_feed) hpieces

end ChomskyChart.Text
