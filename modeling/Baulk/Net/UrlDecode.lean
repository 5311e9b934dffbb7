import Baulk.Core.Characters
import Baulk.Net.FileName

/-!
# Percent-decoding

`url_decode` undoes every percent-encoding of a text without NUL, and of a mixture of
escapes and characters it gives the bytes of both.  Its loop goes over the UTF-8 form
of the URL by an index, and looks two bytes ahead of an escape only after it has
compared the index with the length.
-/

namespace Baulk.Net

/-! ## Escapes and characters -/

/-- The parts of a URL. -/
inductive UrlItem where
  | escape (byte : UInt8) (nonzero : byte ≠ 0) (upper upper' : Bool)
  | literal (c : Char) (plain : c ≠ '%')

namespace UrlItem

/-- How a part is written. -/
def text : UrlItem → WString
  | escape byte _ upper upper' =>
      [0x25, hexDigit upper (byte.toNat / 16), hexDigit upper' (byte.toNat % 16)]
  | literal c _ => utf16Units c

/-- What a part stands for. -/
def bytes : UrlItem → Bytes
  | escape byte _ _ _ => [byte]
  | literal c _ => String.utf8EncodeChar c

end UrlItem

/-- How a byte is written in a percent-encoding. -/
inductive EncodedByte where
  | escaped (byte : UInt8) (nonzero : byte ≠ 0) (upper upper' : Bool)
  | bare (byte : UInt8) (ascii : byte.toNat < 0x80) (plain : byte ≠ 0x25)

namespace EncodedByte

def text : EncodedByte → WString
  | escaped byte _ upper upper' =>
      [0x25, hexDigit upper (byte.toNat / 16), hexDigit upper' (byte.toNat % 16)]
  | bare byte _ _ => [byte.toUInt16]

def byte : EncodedByte → UInt8
  | escaped byte _ _ _ => byte
  | bare byte _ _ => byte

end EncodedByte

/-! ## The UTF-8 form -/

theorem encodeUtf8_ascii {c : WChar} (h : c ≤ 0x7F) (rest : WString) :
    encodeUtf8 (c :: rest) = c.toUInt8 :: encodeUtf8 rest := by
  have hc : c.toUInt32 ≤ 0x7F := by
    rw [UInt32.le_iff_toNat_le, UInt16.toNat_toUInt32]
    exact UInt16.le_iff_toNat_le.mp h
  rw [encodeUtf8_cons (isHighSurrogate_of_le h), encodeRune, if_pos hc, UInt16.toUInt8_toUInt32]
  rfl

/-! ## Decoding parts -/

/-- What a couple of bytes behind a percent sign adds. -/
def coupleBytes (a b : UInt8) : Bytes :=
  match decodeByteCouple a b with
  | some n => if n > 0 then [n] else []
  | none => []

theorem decodePercent_couple (a b : UInt8) (rest : Bytes) :
    decodePercent (0x25 :: a :: b :: rest) = coupleBytes a b ++ decodePercent rest := by
  rw [decodePercent.eq_def]
  dsimp only
  rw [if_neg (fun h => h rfl)]
  unfold coupleBytes
  cases decodeByteCouple a b with
  | none => rfl
  | some n =>
      dsimp only
      split <;> rfl

theorem decodePercent_short {rest : Bytes} (h : rest.length < 2) :
    decodePercent (0x25 :: rest) = [] := by
  match rest, h with
  | [], _ => rfl
  | [_], _ => rfl

theorem decodePercent_append {front rest : Bytes} (h : (0x25 : UInt8) ∉ front) :
    decodePercent (front ++ rest) = front ++ decodePercent rest := by
  induction front with
  | nil => rfl
  | cons b front ih =>
      rw [List.mem_cons, not_or] at h
      rw [List.cons_append, decodePercent_plain (Ne.symm h.1), ih h.2]
      rfl

theorem decodePercent_escape {a b byte : UInt8} (hcouple : decodeByteCouple a b = some byte)
    (hbyte : byte ≠ 0) (rest : Bytes) :
    decodePercent (0x25 :: a :: b :: rest) = byte :: decodePercent rest := by
  have hpos : byte > 0 := by
    rw [gt_iff_lt, UInt8.lt_iff_toNat_lt]
    have hne : byte.toNat ≠ 0 := fun h => hbyte (UInt8.toNat_inj.mp h)
    exact Nat.pos_of_ne_zero hne
  rw [decodePercent_couple, coupleBytes, hcouple]
  dsimp only
  rw [if_pos hpos]
  rfl

theorem decodeByteCouple_hexDigit (byte : UInt8) (upper upper' : Bool) :
    decodeByteCouple (hexDigit upper (byte.toNat / 16)).toUInt8
      (hexDigit upper' (byte.toNat % 16)).toUInt8 = some byte := by
  have hbyte := byte.toNat_lt
  have hhigh : hexval (hexDigit upper (byte.toNat / 16)).toUInt8 = some (byte.toNat / 16) :=
    (hexDigit_le_and_hexval (by omega)).2
  have hlow : hexval (hexDigit upper' (byte.toNat % 16)).toUInt8 = some (byte.toNat % 16) :=
    (hexDigit_le_and_hexval (by omega)).2
  rw [decodeByteCouple, hhigh, hlow]
  dsimp only
  rw [Nat.div_add_mod, UInt8.ofNat_toNat]

/-- Only the percent sign has the byte of the percent sign. -/
theorem not_mem_utf8EncodeChar {c : Char} (h : c ≠ '%') :
    (0x25 : UInt8) ∉ String.utf8EncodeChar c := by
  have htag : ∀ n : Nat, 0x80 ≤ n % 256 → (0x25 : UInt8) ≠ UInt8.ofNat n := by
    intro n hn heq
    have hnat := congrArg UInt8.toNat heq
    rw [UInt8.toNat_ofNat'] at hnat
    change 0x25 = n % 256 at hnat
    omega
  unfold String.utf8EncodeChar
  dsimp only
  split
  · rename_i hsmall
    rw [List.mem_singleton]
    intro heq
    have hnat := congrArg UInt8.toNat heq
    rw [UInt8.toNat_ofNat'] at hnat
    change 0x25 = c.val.toNat % 256 at hnat
    have hval : c.val = ('%' : Char).val := by
      rw [← UInt32.toNat_inj]
      change c.val.toNat = 0x25
      omega
    exact h (Char.ext hval)
  split
  · simp only [List.mem_cons, List.not_mem_nil, or_false, not_or]
    exact ⟨htag _ (by omega), htag _ (by omega)⟩
  split
  · simp only [List.mem_cons, List.not_mem_nil, or_false, not_or]
    exact ⟨htag _ (by omega), htag _ (by omega), htag _ (by omega)⟩
  · simp only [List.mem_cons, List.not_mem_nil, or_false, not_or]
    exact ⟨htag _ (by omega), htag _ (by omega), htag _ (by omega), htag _ (by omega)⟩

theorem urlDecode_item (item : UrlItem) (rest : WString) :
    urlDecode (item.text ++ rest) = item.bytes ++ urlDecode rest := by
  cases item with
  | escape byte nonzero upper upper' =>
      have hbyte := byte.toNat_lt
      have hhigh : hexDigit upper (byte.toNat / 16) ≤ 0x7F :=
        (hexDigit_le_and_hexval (by omega)).1
      have hlow : hexDigit upper' (byte.toNat % 16) ≤ 0x7F :=
        (hexDigit_le_and_hexval (by omega)).1
      unfold urlDecode UrlItem.text
      rw [List.cons_append, List.cons_append, List.singleton_append,
        encodeUtf8_ascii (by decide), encodeUtf8_ascii hhigh, encodeUtf8_ascii hlow]
      exact decodePercent_escape (decodeByteCouple_hexDigit byte upper upper') nonzero _
  | literal c plain =>
      unfold urlDecode UrlItem.text
      rw [encodeUtf8_utf16Units, decodePercent_append (not_mem_utf8EncodeChar plain)]
      rfl

theorem urlDecode_items (items : List UrlItem) :
    urlDecode (items.flatMap UrlItem.text) = items.flatMap UrlItem.bytes := by
  induction items with
  | nil => rfl
  | cons item items ih => rw [List.flatMap_cons, List.flatMap_cons, urlDecode_item, ih]

/-- A percent-encoding of bytes is a sequence of escapes and characters. -/
theorem urlDecode_encodedByte (e : EncodedByte) (rest : WString) :
    urlDecode (e.text ++ rest) = e.byte :: urlDecode rest := by
  cases e with
  | escaped byte nonzero upper upper' =>
      exact urlDecode_item (.escape byte nonzero upper upper') rest
  | bare byte ascii plain =>
      have hle : byte.toUInt16 ≤ 0x7F := by
        rw [UInt16.le_iff_toNat_le, UInt8.toNat_toUInt16]
        exact Nat.le_of_lt_succ ascii
      unfold urlDecode EncodedByte.text
      rw [List.singleton_append, encodeUtf8_ascii hle, UInt8.toUInt8_toUInt16]
      have hfront : (0x25 : UInt8) ∉ [byte] := fun h => plain (List.mem_singleton.mp h).symm
      exact decodePercent_append hfront

/-! ## The index -/

/-- The loop of `url_decode` by its index; `none` when a byte outside the string is
read. -/
def urlDecodeLoop (p : Bytes) : Nat → Nat → Bytes → Option Bytes
  | 0, _, _ => none
  | fuel + 1, i, buf =>
      if i < p.length then
        match p[i]? with
        | none => none
        | some ch =>
            if ch ≠ 0x25 then urlDecodeLoop p fuel (i + 1) (buf ++ [ch])
            else if p.length < i + 3 then some buf
            else
              match p[i + 1]?, p[i + 2]? with
              | some a, some b =>
                  match decodeByteCouple a b with
                  | some n =>
                      if n > 0 then urlDecodeLoop p fuel (i + 3) (buf ++ [n])
                      else urlDecodeLoop p fuel (i + 3) buf
                  | none => urlDecodeLoop p fuel (i + 3) buf
              | _, _ => none
      else some buf

/-- `url_decode` with its reads. -/
def urlDecodeChecked (url : WString) : Option Bytes :=
  let u8url := encodeUtf8 url
  urlDecodeLoop u8url (u8url.length + 1) 0 []

theorem urlDecodeLoop_eq (p : Bytes) {fuel : Nat} :
    ∀ {i : Nat} (buf : Bytes), 0 < fuel → p.length < i + fuel →
      urlDecodeLoop p fuel i buf = some (buf ++ decodePercent (p.drop i)) := by
  induction fuel with
  | zero =>
      intro i buf hpos
      exact absurd hpos (Nat.lt_irrefl 0)
  | succ fuel ih =>
      intro i buf _ h
      unfold urlDecodeLoop
      by_cases hi : i < p.length
      · have hdrop := List.drop_eq_getElem_cons hi
        rw [if_pos hi, List.getElem?_eq_getElem hi, hdrop]
        dsimp only
        by_cases hch : p[i] = 0x25
        · rw [if_neg (not_not.mpr hch), hch]
          by_cases hshort : p.length < i + 3
          · rw [if_pos hshort, decodePercent_short, List.append_nil]
            rw [List.length_drop]
            omega
          · have ha : i + 1 < p.length := by omega
            have hb : i + 2 < p.length := by omega
            rw [if_neg hshort, List.drop_eq_getElem_cons ha, List.drop_eq_getElem_cons hb,
              List.getElem?_eq_getElem ha, List.getElem?_eq_getElem hb, decodePercent_couple,
              ← List.append_assoc]
            dsimp only
            unfold coupleBytes
            cases decodeByteCouple p[i + 1] p[i + 2] with
            | none => rw [List.append_nil]; exact ih buf (by omega) (by omega)
            | some n =>
                dsimp only
                split
                · exact ih _ (by omega) (by omega)
                · rw [List.append_nil]
                  exact ih buf (by omega) (by omega)
        · rw [if_pos hch, decodePercent_plain hch, ih _ (by omega) (by omega), List.append_assoc]
          rfl
      · rw [if_neg hi, List.drop_of_length_le (Nat.le_of_not_lt hi)]
        exact congrArg some (List.append_nil buf).symm

theorem length_decodePercent_le (bytes : Bytes) :
    (decodePercent bytes).length ≤ bytes.length := by
  have hcouple : ∀ a b, (coupleBytes a b).length ≤ 1 := by
    intro a b
    unfold coupleBytes
    cases decodeByteCouple a b with
    | none => exact Nat.zero_le 1
    | some n =>
        dsimp only
        split
        · exact le_refl 1
        · exact Nat.zero_le 1
  have hstep : ∀ {a b : UInt8} {rest : Bytes}, (decodePercent rest).length ≤ rest.length →
      (decodePercent (0x25 :: a :: b :: rest)).length ≤ rest.length + 3 := by
    intro a b rest ih
    have hle := hcouple a b
    rw [decodePercent_couple, List.length_append]
    omega
  induction bytes using decodePercent.induct with
  | case1 => exact le_refl 0
  | case2 ch rest hplain ih =>
      rw [decodePercent_plain hplain]
      exact Nat.succ_le_succ ih
  | case3 ch hpercent a b rest n _ _ ih =>
      obtain rfl := not_not.mp hpercent
      exact hstep ih
  | case4 ch hpercent a b rest n _ _ ih =>
      obtain rfl := not_not.mp hpercent
      exact hstep ih
  | case5 ch hpercent a b rest _ ih =>
      obtain rfl := not_not.mp hpercent
      exact hstep ih
  | case6 ch rest hpercent hshort =>
      obtain rfl := not_not.mp hpercent
      have hlength : rest.length < 2 := by
        match rest, hshort with
        | [], _ => exact Nat.zero_lt_two
        | [_], _ => exact Nat.one_lt_two
        | a :: b :: rest, hshort => exact absurd rfl (hshort a b rest)
      rw [decodePercent_short hlength]
      exact Nat.zero_le _

/-- Decoding gives the bytes of a sequence of escapes and characters, it undoes every
percent-encoding of a byte string without NUL, and for every input it reads inside the
string only and does not make it longer. -/
theorem urlDecode_spec :
    (∀ items : List UrlItem,
      urlDecode (items.flatMap UrlItem.text) = items.flatMap UrlItem.bytes) ∧
    (∀ encoded : List EncodedByte,
      urlDecode (encoded.flatMap EncodedByte.text) = encoded.map EncodedByte.byte) ∧
    ∀ url, urlDecodeChecked url = some (urlDecode url) ∧
      (urlDecode url).length ≤ (encodeUtf8 url).length := by
  refine ⟨urlDecode_items, ?_, fun url => ⟨?_, length_decodePercent_le _⟩⟩
  · intro encoded
    induction encoded with
    | nil => rfl
    | cons e encoded ih =>
        rw [List.flatMap_cons, urlDecode_encodedByte, ih]
        rfl
  · exact urlDecodeLoop_eq _ [] (Nat.succ_pos _) (by omega)

end Baulk.Net
