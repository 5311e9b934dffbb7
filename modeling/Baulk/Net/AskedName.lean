import Baulk.Net.Disposition

/-!
# The name that is asked for

`extract_filename` splits the value at every semicolon, also in quoted strings, and
takes the first piece that reads as one of the two parameters.  What a piece reads as
is a grammar of its own: it need not be a parameter of the value.
-/

namespace Baulk.Net

open Numbers (asciiIsSpace)
open Support (components components_append_cons components_of_forall_not_sep)

/-! ## Percent-encoded text -/

/-- The bytes that a percent-encoded text stands for.  Zero bytes and triplets without
hexadecimal digits stand for nothing, and so does a triplet that breaks off. -/
inductive Decodes : Bytes → Bytes → Prop where
  | done : Decodes [] []
  | plain {c : UInt8} {raw bytes : Bytes} (percent : c ≠ 0x25) (rest : Decodes raw bytes) :
      Decodes (c :: raw) (c :: bytes)
  | encoded {a b n : UInt8} {raw bytes : Bytes} (couple : decodeByteCouple a b = some n)
      (zero : n ≠ 0) (rest : Decodes raw bytes) : Decodes (0x25 :: a :: b :: raw) (n :: bytes)
  | dropped {a b : UInt8} {raw bytes : Bytes} (couple : ∀ n, decodeByteCouple a b = some n → n = 0)
      (rest : Decodes raw bytes) : Decodes (0x25 :: a :: b :: raw) bytes
  | cut {raw : Bytes} (short : raw.length < 2) : Decodes (0x25 :: raw) []

theorem pos_of_ne_zero {n : UInt8} (h : n ≠ 0) : n > 0 := by
  rw [gt_iff_lt, UInt8.lt_iff_toNat_lt]
  exact Nat.pos_of_ne_zero fun hzero => h (UInt8.toNat_inj.mp hzero)

theorem decodePercent_encoded {a b n : UInt8} (couple : decodeByteCouple a b = some n)
    (zero : n ≠ 0) (raw : Bytes) :
    decodePercent (0x25 :: a :: b :: raw) = n :: decodePercent raw := by
  rw [decodePercent, if_neg fun h => h rfl]
  simp only [couple]
  rw [if_pos (pos_of_ne_zero zero)]

theorem decodePercent_dropped {a b : UInt8}
    (couple : ∀ n, decodeByteCouple a b = some n → n = 0) (raw : Bytes) :
    decodePercent (0x25 :: a :: b :: raw) = decodePercent raw := by
  rw [decodePercent, if_neg fun h => h rfl]
  cases hcouple : decodeByteCouple a b with
  | none => rfl
  | some n =>
      rw [couple n hcouple]
      rfl

theorem decodePercent_cut {raw : Bytes} (h : raw.length < 2) :
    decodePercent (0x25 :: raw) = [] := by
  rw [decodePercent.eq_def]
  dsimp only
  rw [if_neg fun h => h rfl]
  rcases raw with _ | ⟨a, _ | ⟨b, raw⟩⟩
  · rfl
  · rfl
  · simp only [List.length_cons] at h
    omega

theorem Decodes.decodePercent_eq {raw bytes : Bytes} (h : Decodes raw bytes) :
    decodePercent raw = bytes := by
  induction h with
  | done => rw [decodePercent]
  | plain percent _ ih => rw [decodePercent_plain percent, ih]
  | encoded couple zero _ ih => rw [decodePercent_encoded couple zero, ih]
  | dropped couple _ ih => rw [decodePercent_dropped couple, ih]
  | cut short => exact decodePercent_cut short

theorem decodes_decodePercent (raw : Bytes) : Decodes raw (decodePercent raw) := by
  induction hlength : raw.length using Nat.strong_induction_on generalizing raw with
  | _ n ih =>
      subst hlength
      cases raw with
      | nil =>
          rw [decodePercent]
          exact .done
      | cons c raw =>
          by_cases hpercent : c = 0x25
          · subst hpercent
            rcases raw with _ | ⟨a, _ | ⟨b, raw⟩⟩
            · rw [decodePercent_cut (by decide)]
              exact .cut (by decide)
            · rw [decodePercent_cut (by simp)]
              exact .cut (by simp)
            · have hrest := ih raw.length (by simp only [List.length_cons]; omega) raw rfl
              by_cases hcouple : ∀ n, decodeByteCouple a b = some n → n = 0
              · rw [decodePercent_dropped hcouple]
                exact .dropped hcouple hrest
              · simp only [not_forall] at hcouple
                obtain ⟨n, hn, hzero⟩ := hcouple
                rw [decodePercent_encoded hn hzero]
                exact .encoded hn hzero hrest
          · rw [decodePercent_plain hpercent]
            exact .plain hpercent (ih raw.length (by simp) raw rfl)

/-! ## Values -/

/-- A text without a quote in front and a quote behind, if they are there. -/
def Trims (v w : WString) : Prop :=
  ∃ rest, (v = 0x22 :: rest ∨ v = rest ∧ rest.head? ≠ some 0x22) ∧
    (rest = w ++ [0x22] ∨ rest = w ∧ w.getLast? ≠ some 0x22)

theorem trims_iff {v w : WString} : Trims v w ↔ consumeQuotes v = w := by
  constructor
  · rintro ⟨rest, rfl | ⟨rfl, hhead⟩, hlast⟩
    · rcases hlast with rfl | ⟨rfl, hlast⟩
      · simp [consumeQuotes]
      · simp [consumeQuotes, hlast]
    · unfold consumeQuotes
      simp only [if_neg hhead]
      rcases hlast with rfl | ⟨rfl, hlast⟩
      · rw [if_pos List.getLast?_concat, List.dropLast_concat]
      · rw [if_neg hlast]
  · rintro rfl
    unfold consumeQuotes
    dsimp only
    have hback : ∀ rest : WString, rest = (if rest.getLast? = some 0x22 then rest.dropLast
          else rest) ++ [0x22] ∨
        rest = (if rest.getLast? = some 0x22 then rest.dropLast else rest) ∧
          (if rest.getLast? = some 0x22 then rest.dropLast else rest).getLast? ≠
            some 0x22 := by
      intro rest
      by_cases hlast : rest.getLast? = some 0x22
      · rw [if_pos hlast]
        exact .inl (List.dropLast_append_getLast? _ hlast).symm
      · rw [if_neg hlast]
        exact .inr ⟨rfl, hlast⟩
    by_cases hhead : v.head? = some 0x22
    · rw [if_pos hhead]
      refine ⟨v.tail, .inl ?_, hback v.tail⟩
      exact (List.cons_head?_tail hhead).symm
    · rw [if_neg hhead]
      exact ⟨v, .inr ⟨rfl, hhead⟩, hback v⟩

theorem findTwoQuotes_eq_none_iff {v : WString} :
    findTwoQuotes v = none ↔ ¬ [0x27, 0x27] <:+: v := by
  unfold findTwoQuotes
  rw [List.findIdx?_eq_none_iff, List.infix_iff_prefix_suffix]
  constructor
  · rintro h ⟨t, hprefix, hsuffix⟩
    have hnot := h t ((List.mem_tails _ _).mpr hsuffix)
    rw [List.isPrefixOf_iff_prefix.mpr hprefix] at hnot
    cases hnot
  · intro h t ht
    rw [Bool.eq_false_iff]
    intro hprefix
    exact h ⟨t, List.isPrefixOf_iff_prefix.mp hprefix, (List.mem_tails _ _).mp ht⟩

theorem eq_append_of_findTwoQuotes {v : WString} {pos : Nat} (h : findTwoQuotes v = some pos) :
    v = v.take pos ++ 0x27 :: 0x27 :: v.drop (pos + 2) := by
  unfold findTwoQuotes at h
  obtain ⟨hlt, hat, -⟩ := List.findIdx?_eq_some_iff_getElem.mp h
  rw [List.getElem_tails, List.isPrefixOf_iff_prefix] at hat
  obtain ⟨rest, hrest⟩ := hat
  have hdrop : v.drop (pos + 2) = rest := by
    rw [← List.drop_drop, ← hrest]
    rfl
  rw [hdrop]
  conv_lhs => rw [← List.take_append_drop pos v, ← hrest]
  rfl

theorem not_mem_of_utf8 {charset : WString}
    (h : equalsIgnoreCase charset (wide "UTF-8") = true) : (0x27 : WChar) ∉ charset := by
  intro hmem
  have hfold := List.mem_map_of_mem (f := asciiToLower) hmem
  rw [equalsIgnoreCase_iff.mp h] at hfold
  exact absurd hfold (by decide)

/-- The names that a value gives under the name of its parameter. -/
inductive NameOf : WString → WString → WString → Prop where
  | filename {v w : WString} (trims : Trims v w) : NameOf (wide "filename") v w
  | text {v w : WString} (quotes : ¬ [0x27, 0x27] <:+: v) (trims : Trims v w) :
      NameOf (wide "filename*") v w
  | utf8 {charset raw : WString} {bytes : Bytes}
      (utf8 : equalsIgnoreCase charset (wide "UTF-8") = true)
      (decodes : Decodes (encodeUtf8 raw) bytes) :
      NameOf (wide "filename*") (charset ++ 0x27 :: 0x27 :: raw) (encodeUtf16 bytes)

theorem resolveParm_filename (v : WString) :
    resolveParm (wide "filename") v = some (consumeQuotes v) :=
  if_pos rfl

theorem resolveParm_filenameStar {v : WString} (h : findTwoQuotes v = none) :
    resolveParm (wide "filename*") v = some (consumeQuotes v) := by
  unfold resolveParm
  rw [if_neg (by decide), if_neg (by decide), h]

theorem resolveParm_twoQuotes {v : WString} {pos : Nat} (h : findTwoQuotes v = some pos) :
    resolveParm (wide "filename*") v =
      if equalsIgnoreCase (v.take pos) (wide "UTF-8") then
        some (encodeUtf16 (urlDecode (v.drop (pos + 2))))
      else none := by
  unfold resolveParm
  rw [if_neg (by decide), if_neg (by decide), h]

theorem resolveParm_eq_some_iff {name v w : WString} :
    resolveParm name v = some w ↔ NameOf name v w := by
  constructor
  · intro h
    by_cases hname : name = wide "filename"
    · subst hname
      rw [resolveParm_filename] at h
      exact .filename (trims_iff.mpr (Option.some.inj h))
    by_cases hstar : name = wide "filename*"
    · subst hstar
      cases hquotes : findTwoQuotes v with
      | none =>
          rw [resolveParm_filenameStar hquotes] at h
          exact .text (findTwoQuotes_eq_none_iff.mp hquotes)
            (trims_iff.mpr (Option.some.inj h))
      | some pos =>
          rw [resolveParm_twoQuotes hquotes] at h
          split at h
          · next hutf8 =>
            cases h
            have hname := NameOf.utf8 hutf8 (decodes_decodePercent
              (encodeUtf8 (v.drop (pos + 2))))
            rw [← eq_append_of_findTwoQuotes hquotes] at hname
            exact hname
          · cases h
    · unfold resolveParm at h
      rw [if_neg hname, if_pos hstar] at h
      cases h
  · intro h
    cases h with
    | filename trims => rw [resolveParm_filename, trims_iff.mp trims]
    | text quotes trims =>
        rw [resolveParm_filenameStar (findTwoQuotes_eq_none_iff.mpr quotes),
          trims_iff.mp trims]
    | @utf8 charset raw bytes utf8 decodes =>
        have hquotes : findTwoQuotes (charset ++ 0x27 :: 0x27 :: raw) = some charset.length := by
          rw [findTwoQuotes_append (not_mem_of_utf8 utf8), findTwoQuotes_cons,
            if_pos ⟨rfl, rfl⟩, Option.map_some, Nat.zero_add]
        have hdrop : (charset ++ 0x27 :: 0x27 :: raw).drop (charset.length + 2) = raw := by
          rw [← List.drop_drop, List.drop_left]
          rfl
        rw [resolveParm_twoQuotes hquotes, List.take_left, if_pos utf8, hdrop, urlDecode,
          decodes.decodePercent_eq]

/-! ## Pieces -/

/-- A text reads as a parameter, with white space around its parts. -/
def ReadsAs (name value s : WString) : Prop :=
  ∃ before behindName beforeValue behind : WString,
    (∀ c ∈ before ++ behindName ++ beforeValue ++ behind, asciiIsSpace c = true) ∧
      (value = [] ∨ Solid value) ∧
      s = before ++ (name ++ behindName ++ 0x3D :: (beforeValue ++ value)) ++ behind

/-- The name that a text gives, if it reads as one of the two parameters. -/
def Names (s w : WString) : Prop :=
  ∃ name value, ReadsAs name value s ∧ NameOf name value w

theorem NameOf.name_eq {name v w : WString} (h : NameOf name v w) :
    name = wide "filename" ∨ name = wide "filename*" := by
  cases h with
  | filename _ => exact .inl rfl
  | text _ _ => exact .inr rfl
  | utf8 _ _ => exact .inr rfl

theorem solid_filename : Solid (wide "filename") :=
  ⟨List.cons_ne_nil _ _, by decide, by decide⟩

theorem solid_filenameStar : Solid (wide "filename*") :=
  ⟨List.cons_ne_nil _ _, by decide, by decide⟩

theorem stripTrailing_split (s : WString) :
    ∃ d, (∀ c ∈ d, asciiIsSpace c = true) ∧ s = stripTrailing s ++ d := by
  unfold stripTrailing
  dsimp only
  split
  · exact ⟨[], nil_spaces, (List.append_nil s).symm⟩
  · next hkept =>
    cases s with
    | nil => exact absurd rfl hkept
    | cons c t =>
        refine ⟨t.rtakeWhile asciiIsSpace, fun d hd => List.mem_rtakeWhile_imp hd, ?_⟩
        have hsplit : t.rdropWhile asciiIsSpace ++ t.rtakeWhile asciiIsSpace = t :=
          List.rdropWhile_append_rtakeWhile
        have htake : t.take (t.rdropWhile asciiIsSpace).length = t.rdropWhile asciiIsSpace :=
          (List.prefix_iff_eq_take.mp ⟨_, hsplit⟩).symm
        rw [List.tail_cons, List.take_succ_cons, List.cons_append, htake, hsplit]

theorem stripAsciiWhitespace_split (s : WString) :
    ∃ a d, (∀ c ∈ a, asciiIsSpace c = true) ∧ (∀ c ∈ d, asciiIsSpace c = true) ∧
      s = a ++ (stripAsciiWhitespace s ++ d) := by
  obtain ⟨d, hd, hsplit⟩ := stripTrailing_split (stripLeading s)
  have hleading : ∃ a, (∀ c ∈ a, asciiIsSpace c = true) ∧ s = a ++ stripLeading s := by
    unfold stripLeading
    dsimp only
    split
    · exact ⟨[], nil_spaces, rfl⟩
    · exact ⟨s.takeWhile asciiIsSpace, fun c hc => List.mem_takeWhile_imp hc,
        List.takeWhile_append_dropWhile.symm⟩
  obtain ⟨a, ha, hs⟩ := hleading
  refine ⟨a, d, ha, hd, ?_⟩
  unfold stripAsciiWhitespace
  rw [← hsplit]
  exact hs

/-- What is left has no white space at its ends, if it is more than one character and
white space. -/
theorem solid_stripAsciiWhitespace {s : WString}
    (h : ∃ c ∈ (stripAsciiWhitespace s).tail, asciiIsSpace c = false) :
    Solid (stripAsciiWhitespace s) := by
  have hleading : (∀ c ∈ stripLeading s, asciiIsSpace c = true) ∨
      ∃ c t, stripLeading s = c :: t ∧ asciiIsSpace c = false := by
    unfold stripLeading
    dsimp only
    split
    · next hempty =>
      rw [List.isEmpty_iff, List.dropWhile_eq_nil_iff] at hempty
      exact .inl hempty
    · next hne =>
      rw [List.isEmpty_iff] at hne
      have hhead := List.head_dropWhile_not asciiIsSpace hne
      obtain ⟨c, t, hct⟩ := List.exists_cons_of_ne_nil hne
      simp only [hct, List.head_cons] at hhead
      exact .inr ⟨c, t, hct, hhead⟩
  unfold stripAsciiWhitespace at h ⊢
  rcases hleading with hspace | ⟨c, t, hct, hc⟩
  · obtain ⟨c, hc, hnot⟩ := h
    obtain ⟨d, -, hsplit⟩ := stripTrailing_split (stripLeading s)
    have hmem : c ∈ stripLeading s := by
      rw [hsplit]
      exact List.mem_append_left d (List.mem_of_mem_tail hc)
    rw [hspace c hmem] at hnot
    cases hnot
  · rw [hct] at h ⊢
    unfold stripTrailing at h ⊢
    dsimp only at h ⊢
    rw [List.tail_cons] at h ⊢
    have hsplit : t.rdropWhile asciiIsSpace ++ t.rtakeWhile asciiIsSpace = t :=
      List.rdropWhile_append_rtakeWhile
    by_cases hkept : t.rdropWhile asciiIsSpace = []
    · rw [hkept, List.isEmpty_nil, if_pos rfl] at h
      obtain ⟨d, hd, hnot⟩ := h
      rw [List.tail_cons] at hd
      rw [List.rdropWhile_eq_nil_iff.mp hkept d hd] at hnot
      cases hnot
    · have htake : t.take (t.rdropWhile asciiIsSpace).length = t.rdropWhile asciiIsSpace :=
        (List.prefix_iff_eq_take.mp ⟨_, hsplit⟩).symm
      rw [if_neg (by rw [List.isEmpty_iff]; exact hkept), List.take_succ_cons, htake]
      have hlast := List.rdropWhile_last_not asciiIsSpace t hkept
      refine ⟨List.cons_ne_nil _ _, hc, ?_⟩
      rw [List.getLast_cons hkept]
      exact Bool.eq_false_iff.mpr hlast

/-- A text that is empty or does not end with white space loses what is in front. -/
theorem stripAsciiWhitespace_of_last {r : WString}
    (h : ∀ hne : r ≠ [], asciiIsSpace (r.getLast hne) = false) :
    (stripAsciiWhitespace r = [] ∨ Solid (stripAsciiWhitespace r)) ∧
      ∃ a, (∀ c ∈ a, asciiIsSpace c = true) ∧ r = a ++ stripAsciiWhitespace r := by
  by_cases hnil : r = []
  · subst hnil
    exact ⟨.inl rfl, [], nil_spaces, rfl⟩
  · have hsplit : r.takeWhile asciiIsSpace ++ r.dropWhile asciiIsSpace = r :=
      List.takeWhile_append_dropWhile
    have hspaces : ∀ c ∈ r.takeWhile asciiIsSpace, asciiIsSpace c = true :=
      fun c hc => List.mem_takeWhile_imp hc
    have hrest : r.dropWhile asciiIsSpace ≠ [] := by
      intro hdrop
      have hall := List.dropWhile_eq_nil_iff.mp hdrop _ (List.getLast_mem hnil)
      rw [h hnil] at hall
      cases hall
    have hlast : ∀ hne : r.takeWhile asciiIsSpace ++ r.dropWhile asciiIsSpace ≠ [],
        asciiIsSpace (List.getLast _ hne) = false := by
      rw [hsplit]
      exact h
    have hsolid : Solid (r.dropWhile asciiIsSpace) := by
      have hend := hlast (List.append_ne_nil_of_right_ne_nil _ hrest)
      rw [List.getLast_append_of_ne_nil _ hrest] at hend
      exact ⟨hrest, List.head_dropWhile_not asciiIsSpace hrest, hend⟩
    have hstrip := stripAsciiWhitespace_solid hspaces hsolid
    rw [hsplit] at hstrip
    rw [hstrip]
    exact ⟨.inr hsolid, _, hspaces, hsplit.symm⟩

theorem resolveFilename_readsAs {name value s : WString} (h : ReadsAs name value s)
    (hname : Solid name) (hequals : (0x3D : WChar) ∉ name) :
    resolveFilename s = resolveParm name value := by
  obtain ⟨before, behindName, beforeValue, behind, hspaces, hvalue, rfl⟩ := h
  simp only [List.mem_append, or_imp, forall_and] at hspaces
  obtain ⟨⟨⟨hbefore, hbehindName⟩, hbeforeValue⟩, hbehind⟩ := hspaces
  rcases hvalue with rfl | hvalue
  · have hall : ∀ c ∈ beforeValue ++ behind, asciiIsSpace c = true := by
      intro c hc
      exact (List.mem_append.mp hc).elim (hbeforeValue c) (hbehind c)
    have hempty := resolveFilename_empty hbefore hname hequals hbehindName hall
    rw [← hempty]
    simp
  · exact resolveFilename_piece hbefore hname hequals hbehindName hbeforeValue hvalue hbehind

/-- Where a name is found, the piece reads as a parameter that gives it. -/
theorem names_of_resolveFilename {s w : WString} (h : resolveFilename s = some w) :
    Names s w := by
  obtain ⟨a, d, ha, hd, hs⟩ := stripAsciiWhitespace_split s
  unfold resolveFilename at h
  dsimp only at h
  cases hpos : (stripAsciiWhitespace s).findIdx? (· == 0x3D) with
  | none =>
      rw [hpos] at h
      cases h
  | some pos =>
      rw [hpos] at h
      obtain ⟨hlt, hat, -⟩ := List.findIdx?_eq_some_iff_getElem.mp hpos
      have hparm : resolveParm (stripAsciiWhitespace ((stripAsciiWhitespace s).take pos))
          (stripAsciiWhitespace ((stripAsciiWhitespace s).drop (pos + 1))) = some w := h
      generalize hl : (stripAsciiWhitespace s).take pos = l at hparm
      generalize hr : (stripAsciiWhitespace s).drop (pos + 1) = r at hparm
      have hsplit : stripAsciiWhitespace s = l ++ 0x3D :: r := by
        rw [← hl, ← hr, ← beq_iff_eq.mp hat, List.getElem_cons_drop, List.take_append_drop]
      have hname := resolveParm_eq_some_iff.mp hparm
      have hne : l ≠ [] := by
        rintro rfl
        exact absurd hname.name_eq (by decide)
      -- The equals sign is behind the first character, and no white space.
      have hsolid : Solid (stripAsciiWhitespace s) := by
        apply solid_stripAsciiWhitespace
        refine ⟨0x3D, ?_, by decide⟩
        rw [hsplit, List.tail_append_of_ne_nil hne]
        simp
      have hlast : ∀ hr : r ≠ [], asciiIsSpace (r.getLast hr) = false := by
        intro hr
        have hend := hsolid.last
        simp only [hsplit] at hend
        rwa [List.getLast_append_of_ne_nil _ (List.cons_ne_nil _ _),
          List.getLast_cons hr] at hend
      obtain ⟨hvalue, c, hc, hrest⟩ := stripAsciiWhitespace_of_last hlast
      obtain ⟨a', b, ha', hb, hfront⟩ := stripAsciiWhitespace_split l
      refine ⟨_, _, ⟨a ++ a', b, c, d, ?_, hvalue, ?_⟩, hname⟩
      · simp only [List.mem_append, or_imp, forall_and]
        exact ⟨⟨⟨⟨ha, ha'⟩, hb⟩, hc⟩, hd⟩
      · rw [← hrest]
        conv_lhs => rw [hs, hsplit, hfront]
        simp only [List.append_assoc, List.cons_append]

theorem resolveFilename_eq_some_iff {s w : WString} :
    resolveFilename s = some w ↔ Names s w := by
  constructor
  · exact names_of_resolveFilename
  · rintro ⟨name, value, hreads, hname⟩
    rcases hname.name_eq with rfl | rfl
    · rw [resolveFilename_readsAs hreads solid_filename (by decide)]
      exact resolveParm_eq_some_iff.mpr hname
    · rw [resolveFilename_readsAs hreads solid_filenameStar (by decide)]
      exact resolveParm_eq_some_iff.mpr hname

theorem dispositionFilename_eq (value : WString) : dispositionFilename value =
    (components (· == 0x3B) value).findSome? resolveFilename :=
  rfl

theorem Blanks.not_mem (b : Blanks) {c : WChar} (h : asciiIsSpace c = false) :
    c ∉ b.text := by
  intro hc
  exact absurd ((b.space c hc).symm.trans h) (by decide)

theorem components_piece {s : WString} (hne : s ≠ []) (h : (0x3B : WChar) ∉ s) :
    components (· == 0x3B) s = [s] := by
  apply components_of_forall_not_sep hne
  intro c hc
  rw [beq_eq_false_iff_ne]
  rintro rfl
  exact h hc

/-- The parts of a text between its semicolons. -/
inductive Parts : WString → List WString → Prop where
  | last {s : WString} (semicolon : (0x3B : WChar) ∉ s) : Parts s [s]
  | cons {s t : WString} {parts : List WString} (semicolon : (0x3B : WChar) ∉ s)
      (rest : Parts t parts) : Parts (s ++ 0x3B :: t) (s :: parts)

theorem exists_parts (s : WString) : ∃ parts, Parts s parts := by
  induction hlen : s.length using Nat.strong_induction_on generalizing s with
  | _ n ih =>
      by_cases hmem : (0x3B : WChar) ∈ s
      · obtain ⟨front, rest, rfl, hfront⟩ := List.eq_append_cons_of_mem hmem
        have hlt : rest.length < n := by
          rw [← hlen, List.length_append, List.length_cons]
          omega
        obtain ⟨parts, hparts⟩ := ih _ hlt rest rfl
        exact ⟨_, .cons hfront hparts⟩
      · exact ⟨_, .last hmem⟩

theorem findSome?_part {s : WString} (h : (0x3B : WChar) ∉ s) :
    (components (· == 0x3B) s).findSome? resolveFilename = resolveFilename s := by
  by_cases hne : s = []
  · subst hne
    rfl
  · rw [components_piece hne h, List.findSome?_singleton]

theorem Parts.findSome?_eq {s : WString} {parts : List WString} (h : Parts s parts) :
    (components (· == 0x3B) s).findSome? resolveFilename =
      parts.findSome? resolveFilename := by
  induction h with
  | last semicolon => rw [findSome?_part semicolon, List.findSome?_singleton]
  | cons semicolon _ ih =>
      rw [components_append_cons _ _ (by rfl), List.findSome?_append, findSome?_part semicolon,
        ih, List.findSome?_cons]
      cases resolveFilename _ with
      | none => rfl
      | some w => rfl

/-- The name that a parameter gives.  Where a quoted string contains semicolons, its
parts count for themselves: the first one that reads as a parameter gives its name. -/
def SpacedParm.Gives (p : SpacedParm) (w : WString) : Prop :=
  if (0x3B : WChar) ∈ p.parm.valueText then
    ∃ front part back, Parts p.text (front ++ part :: back) ∧
      (∀ s ∈ front, ∀ w', ¬ Names s w') ∧ Names part w
  else p.parm.taken = some w

/-- What is found in the pieces of a parameter. -/
def SpacedParm.found (p : SpacedParm) : Option WString :=
  (components (· == 0x3B) p.text).findSome? resolveFilename

theorem SpacedParm.found_eq_taken {p : SpacedParm} (h : (0x3B : WChar) ∉ p.parm.valueText) :
    p.found = p.parm.taken := by
  have hspace : asciiIsSpace 0x3B = false := by decide
  have hpiece : (0x3B : WChar) ∉ p.text := by
    unfold SpacedParm.text
    simp only [List.mem_append, List.mem_cons, not_or]
    exact ⟨⟨p.before.not_mem hspace,
      ⟨fun h => (p.parm.name_inert _ h).semicolon rfl, p.behindName.not_mem hspace⟩,
      by decide, p.beforeValue.not_mem hspace, h⟩, p.behind.not_mem hspace⟩
  unfold SpacedParm.found
  rw [findSome?_part hpiece, ← p.parm.resolveParm_eq]
  exact resolveFilename_piece p.before.space
    (solid_of_inert p.parm.name_ne p.parm.name_inert)
    (fun h => (p.parm.name_inert _ h).equals rfl) p.behindName.space
    p.beforeValue.space p.parm.solid_valueText p.behind.space

theorem resolveFilename_eq_none_iff {s : WString} :
    resolveFilename s = none ↔ ∀ w, ¬ Names s w := by
  simp only [← resolveFilename_eq_some_iff]
  exact Option.eq_none_iff_forall_ne_some

theorem SpacedParm.found_eq_some_iff {p : SpacedParm} {w : WString} :
    p.found = some w ↔ p.Gives w := by
  unfold SpacedParm.Gives
  by_cases hmem : (0x3B : WChar) ∈ p.parm.valueText
  · rw [if_pos hmem]
    constructor
    · intro h
      obtain ⟨parts, hparts⟩ := exists_parts p.text
      unfold SpacedParm.found at h
      rw [hparts.findSome?_eq] at h
      obtain ⟨front, part, back, rfl, hpart, hfront⟩ := List.findSome?_eq_some_iff.mp h
      exact ⟨front, part, back, hparts,
        fun s hs => resolveFilename_eq_none_iff.mp (hfront s hs),
        resolveFilename_eq_some_iff.mp hpart⟩
    · rintro ⟨front, part, back, hparts, hfront, hpart⟩
      unfold SpacedParm.found
      rw [hparts.findSome?_eq]
      exact List.findSome?_eq_some_iff.mpr ⟨front, part, back, rfl,
        resolveFilename_eq_some_iff.mpr hpart,
        fun s hs => resolveFilename_eq_none_iff.mpr (hfront s hs)⟩
  · rw [if_neg hmem, found_eq_taken hmem]

theorem SpacedParm.found_eq_none_iff {p : SpacedParm} :
    p.found = none ↔ ∀ w, ¬ p.Gives w := by
  simp only [← found_eq_some_iff]
  exact Option.eq_none_iff_forall_ne_some

theorem mem_of_mem_stripAsciiWhitespace {s : WString} {c : WChar}
    (h : c ∈ stripAsciiWhitespace s) : c ∈ s := by
  have hleading : ∀ t : WString, c ∈ stripLeading t → c ∈ t := by
    intro t ht
    unfold stripLeading at ht
    dsimp only at ht
    split at ht
    · exact ht
    · exact (List.dropWhile_suffix _).mem ht
  have htrailing : ∀ t : WString, c ∈ stripTrailing t → c ∈ t := by
    intro t ht
    unfold stripTrailing at ht
    dsimp only at ht
    split at ht
    · exact ht
    · exact List.mem_of_mem_take ht
  exact hleading _ (htrailing _ h)

theorem resolveFilename_of_not_mem {s : WString} (h : (0x3D : WChar) ∉ s) :
    resolveFilename s = none := by
  have hstrip : (0x3D : WChar) ∉ stripAsciiWhitespace s :=
    fun hmem => h (mem_of_mem_stripAsciiWhitespace hmem)
  unfold resolveFilename
  dsimp only
  rw [Support.findIdx?_eq_none_iff_not_mem.mpr hstrip]

/-- The first parameter from which a name is taken decides. -/
theorem dispositionFilename_text (d : Disposition) :
    dispositionFilename d.text = d.parms.findSome? SpacedParm.found := by
  have hsemicolon : asciiIsSpace 0x3B = false := by decide
  have hequals : asciiIsSpace 0x3D = false := by decide
  have hparms : ∀ (parms : List SpacedParm) (front : WString),
      (components (· == 0x3B) (front ++ parms.flatMap fun p => 0x3B :: p.text)).findSome?
          resolveFilename =
        ((components (· == 0x3B) front).findSome? resolveFilename).or
          (parms.findSome? SpacedParm.found) := by
    intro parms
    induction parms with
    | nil =>
        intro front
        rw [List.flatMap_nil, List.append_nil, List.findSome?_nil, Option.or_none]
    | cons p parms ih =>
        intro front
        have hpiece : (components (· == 0x3B) p.text).findSome? resolveFilename = p.found := rfl
        rw [List.flatMap_cons, List.cons_append, components_append_cons _ _ (by rfl),
          List.findSome?_append, ih p.text, hpiece, List.findSome?_cons]
        cases p.found with
        | none => rfl
        | some w => rfl
  have htype : (0x3B : WChar) ∉ d.before.text ++ d.type.text ++ d.behind.text := by
    simp only [List.mem_append, not_or]
    exact ⟨⟨d.before.not_mem hsemicolon, fun h => (d.type.inert _ h).semicolon rfl⟩,
      d.behind.not_mem hsemicolon⟩
  have hplain : (0x3D : WChar) ∉ d.before.text ++ d.type.text ++ d.behind.text := by
    simp only [List.mem_append, not_or]
    exact ⟨⟨d.before.not_mem hequals, fun h => (d.type.inert _ h).equals rfl⟩,
      d.behind.not_mem hequals⟩
  have hne : d.before.text ++ d.type.text ++ d.behind.text ≠ [] := by
    simp [d.type.ne]
  rw [dispositionFilename_eq]
  unfold Disposition.text
  rw [hparms, components_piece hne htype, List.findSome?_singleton,
    resolveFilename_of_not_mem hplain, Option.none_or]

/-! ## What is asked for -/

/-- The first parameter that gives a name gives the one that is asked for; if there is
no such parameter, none is asked for. -/
def Disposition.FirstAsked (d : Disposition) : Prop :=
  (∀ p ∈ d.parms, ∀ w, ¬ p.Gives w) ∧ d.askedName = none ∨
    ∃ front p back w, d.parms = front ++ p :: back ∧ (∀ q ∈ front, ∀ w', ¬ q.Gives w') ∧
      p.Gives w ∧ d.askedName = some w

/-- The name is the one that is asked for exactly if the first parameter that gives one
gives it. -/
theorem extractFilename_asked_iff (d : Disposition) (hkv : Headers) (name : WString)
    (h : hkv.find? (fun entry =>
      equalsIgnoreCase entry.1 (wide "Content-Disposition")) = some (name, d.text)) :
    extractFilename hkv = d.askedName ↔ d.FirstAsked := by
  have hextract : extractFilename hkv = d.parms.findSome? SpacedParm.found := by
    unfold extractFilename
    rw [h]
    exact dispositionFilename_text d
  rw [hextract]
  unfold Disposition.FirstAsked
  simp only [← SpacedParm.found_eq_none_iff]
  simp only [← SpacedParm.found_eq_some_iff]
  cases hfirst : d.parms.findSome? SpacedParm.found with
  | none =>
      have hnone : ∀ p ∈ d.parms, p.found = none := List.findSome?_eq_none_iff.mp hfirst
      constructor
      · intro hasked
        exact .inl ⟨hnone, hasked.symm⟩
      · rintro (⟨-, hasked⟩ | ⟨front, p, back, w, hparms, -, hfound, -⟩)
        · exact hasked.symm
        · rw [hnone p (hparms ▸ by simp)] at hfound
          cases hfound
  | some w =>
      obtain ⟨front, p, back, hparms, hfound, hfront⟩ :=
        List.findSome?_eq_some_iff.mp hfirst
      constructor
      · intro hasked
        exact .inr ⟨front, p, back, w, hparms, hfront, hfound, hasked.symm⟩
      · rintro (⟨hnone, -⟩ | ⟨front', p', back', w', hparms', hfront', hfound', hasked⟩)
        · rw [hnone p (hparms ▸ by simp)] at hfound
          cases hfound
        · have hfirst' := List.findSome?_eq_some_iff.mpr
            ⟨front', p', back', hparms', hfound', hfront'⟩
          rw [hasked, ← hfirst', hfirst]

/-! ## Simple values -/

/-- A parameter whose value has no semicolon and which, if it is one of the two,
is spelled in lower case and has no escape, no language and no zero byte. -/
def SpacedParm.Simple (p : SpacedParm) : Prop :=
  match p.parm with
  | .plain name _ value =>
      (0x3B : WChar) ∉ value.text ∧
        (equalsIgnoreCase name.text (wide "filename") = true →
          name.text = wide "filename" ∧ value.raw = value.unquoted)
  | .ext name value =>
      equalsIgnoreCase name.text (wide "filename") = true →
        name.text = wide "filename" ∧ value.language = [] ∧
          ∀ x ∈ value.chars, x.byte ≠ 0

/-- All parameters are simple, and a `filename*` in UTF-8 is in front of each
`filename`. -/
structure Disposition.Simple (d : Disposition) : Prop where
  parms : ∀ p ∈ d.parms, p.Simple
  order : ∀ front p back, d.parms = front ++ p :: back → p.parm.askedExt ≠ none →
    ∀ q ∈ front, q.parm.askedPlain = none

theorem SpacedParm.Simple.found_eq {p : SpacedParm} (h : p.Simple) :
    p.found = p.parm.askedExt.or p.parm.askedPlain := by
  have hself := equalsIgnoreCase_self (wide "filename")
  have hsemicolon : (0x3B : WChar) ∉ p.parm.valueText := by
    unfold SpacedParm.Simple at h
    cases hparm : p.parm with
    | plain name star value =>
        rw [hparm] at h
        exact h.1
    | ext name value => exact fun hmem => (value.text_inert _ hmem).semicolon rfl
  rw [found_eq_taken hsemicolon]
  unfold SpacedParm.Simple at h
  cases hparm : p.parm with
  | plain name star value =>
      rw [hparm] at h
      obtain ⟨-, hplain⟩ := h
      change (if name.text = _ then _ else _) =
        Option.or none (if equalsIgnoreCase name.text _ then _ else _)
      rw [Option.none_or]
      by_cases hname : equalsIgnoreCase name.text (wide "filename") = true
      · rw [if_pos hname, if_pos (hplain hname).1, (hplain hname).2]
      · have hother : name.text ≠ wide "filename" := by
          intro heq
          exact hname (by rw [heq]; exact hself)
        rw [if_neg hname, if_neg hother]
  | ext name value =>
      rw [hparm] at h
      change (if name.text ≠ _ then _ else _) =
        Option.or (if equalsIgnoreCase name.text _ && _ then _ else _) none
      rw [Option.or_none]
      by_cases hname : equalsIgnoreCase name.text (wide "filename") = true
      · obtain ⟨hfilename, hlanguage, hzero⟩ := h hname
        have hbytes : (value.chars.map ExtChar.byte).filter (· ≠ 0) =
            value.chars.map ExtChar.byte := by
          rw [List.filter_eq_self]
          intro b hb
          obtain ⟨x, hx, rfl⟩ := List.mem_map.mp hb
          exact decide_eq_true (hzero x hx)
        rw [if_neg (not_not.mpr hfilename), if_neg (not_not.mpr hlanguage), hname,
          Bool.true_and, hbytes]
        rfl
      · have hother : name.text ≠ wide "filename" := by
          intro heq
          exact hname (by rw [heq]; exact hself)
        rw [if_pos hother, Bool.eq_false_of_not_eq_true hname, Bool.false_and]
        rfl

theorem findSome?_congr {α β : Type} {f g : α → Option β} {l : List α}
    (h : ∀ p ∈ l, f p = g p) : l.findSome? f = l.findSome? g := by
  induction l with
  | nil => rfl
  | cons p l ih =>
      rw [List.findSome?_cons, List.findSome?_cons, h p List.mem_cons_self,
        ih fun q hq => h q (List.mem_cons_of_mem p hq)]

/-- Where the first kind comes before the second, the search for either finds
the first kind if there is one. -/
theorem findSome?_or {α β : Type} {f g : α → Option β} {l : List α}
    (h : ∀ front p back, l = front ++ p :: back → f p ≠ none →
      ∀ q ∈ front, g q = none) :
    (l.findSome? fun p => (f p).or (g p)) = (l.findSome? f).or (l.findSome? g) := by
  induction l with
  | nil => rfl
  | cons p l ih =>
      have hrest := ih fun front q back hl hf r hr =>
        h (p :: front) q back (hl ▸ rfl) hf r (List.mem_cons_of_mem p hr)
      rw [List.findSome?_cons, List.findSome?_cons, List.findSome?_cons]
      cases hf : f p with
      | some w => rfl
      | none =>
          cases hg : g p with
          | none => exact hrest
          | some w =>
              have hnone : l.findSome? f = none := by
                rw [List.findSome?_eq_none_iff]
                intro q hq
                by_contra hne
                obtain ⟨front, back, rfl⟩ := List.append_of_mem hq
                have hp := h (p :: front) q back rfl hne p List.mem_cons_self
                rw [hg] at hp
                cases hp
              rw [hnone]
              rfl

theorem Disposition.Simple.dispositionFilename_eq {d : Disposition} (h : d.Simple) :
    dispositionFilename d.text = d.askedName := by
  have hfound : d.parms.findSome? SpacedParm.found =
      d.parms.findSome? fun p => p.parm.askedExt.or p.parm.askedPlain :=
    findSome?_congr fun p hp => (h.parms p hp).found_eq
  rw [dispositionFilename_text, hfound]
  exact findSome?_or h.order

/-! ### Two values -/

def Token.ofText (s : WString) (hne : s ≠ []) (h : s.all isTokenChar = true) : Token where
  text := s
  ne := hne
  chars := List.all_eq_true.mp h

def noBlanks : Blanks where
  text := []
  blank := fun _ hc => absurd hc List.not_mem_nil

def oneBlank : Blanks where
  text := [0x20]
  blank := fun _ hc => .inl (List.mem_singleton.mp hc)

theorem attachment_token : (wide "attachment").all isTokenChar = true := by
  decide

theorem filename_token : (wide "filename").all isTokenChar = true := by
  decide

theorem letter_token : (wide "a").all isTokenChar = true := by
  decide

/-- The token `filename`. -/
def filenameToken : Token :=
  .ofText (wide "filename") (List.cons_ne_nil _ _) filename_token

theorem filenameToken_star : filenameToken.text.getLast? ≠ some 0x2A := by
  decide

def attachmentNamed (value : ParmValue) : Disposition where
  before := noBlanks
  type := .ofText (wide "attachment") (List.cons_ne_nil _ _) attachment_token
  behind := noBlanks
  parms := [{
    before := oneBlank
    parm := .plain filenameToken filenameToken_star value
    behindName := noBlanks
    beforeValue := noBlanks
    behind := noBlanks }]

theorem letter_plain : (0x61 : WChar) ≠ 0x22 ∧ (0x61 : WChar) ≠ 0x5C := by
  decide

theorem semicolon_plain : (0x3B : WChar) ≠ 0x22 ∧ (0x3B : WChar) ≠ 0x5C := by
  decide

/-- The name `a;a`, quoted. -/
def semicolonName : ParmValue :=
  .quoted [.plain 0x61 letter_plain.1 letter_plain.2,
    .plain 0x3B semicolon_plain.1 semicolon_plain.2,
    .plain 0x61 letter_plain.1 letter_plain.2]

/-- The name is cut at the semicolon in the quoted string. -/
theorem semicolonName_cut :
    (attachmentNamed semicolonName).text = wide "attachment; filename=\"a;a\"" ∧
      (attachmentNamed semicolonName).askedName = some (wide "a;a") ∧
      extractFilename [(wide "Content-Disposition",
        (attachmentNamed semicolonName).text)] = some (wide "a") := by
  decide

theorem extractFilename_asked_iff_letter :
    let d := attachmentNamed (.token (.ofText (wide "a") (List.cons_ne_nil _ _) letter_token))
    extractFilename [(wide "Content-Disposition", d.text)] = d.askedName := by
  intro d
  have hfind : [(wide "Content-Disposition", d.text)].find? (fun entry =>
      equalsIgnoreCase entry.1 (wide "Content-Disposition")) =
        some (wide "Content-Disposition", d.text) :=
    List.find?_cons_of_pos (equalsIgnoreCase_self _)
  refine (extractFilename_asked_iff d _ _ hfind).mpr
    (.inr ⟨[], _, [], wide "a", rfl, fun q hq => absurd hq List.not_mem_nil, ?_, ?_⟩)
  · have hsemicolon : (0x3B : WChar) ∉ wide "a" := by decide
    exact (if_neg hsemicolon).mpr (by decide)
  · decide

end Baulk.Net
