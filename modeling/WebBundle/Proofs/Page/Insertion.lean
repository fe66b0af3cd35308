import Mathlib.Order.Bounds.Defs
import WebBundle.Page.Html
import WebBundle.Proofs.Text.Encoding
import WebBundle.Proofs.Text.Substring

/-!
# Script tags in a template

A closing body tag is looked for in the bytes of the template, in lower case. All its bytes are
ASCII, and no byte of a longer character is, so a tag that is found begins at a character. Hence the
template can be cut there: the tags of the scripts are put between its two parts, and the parts are
left as they are.
-/

namespace WebBundle.Page

open Text

/-! ## Bytes in lower case -/

def lowerByte (b : UInt8) : UInt8 := if 65 ≤ b ∧ b ≤ 90 then b + 32 else b

def lowerBytes (text : List Char) : List UInt8 :=
  (text.flatMap String.utf8EncodeChar).map lowerByte

theorem lowerByte_of_ascii {c : Char} (ascii : c.toNat < 0x80) :
    lowerByte (UInt8.ofNat c.toNat) = UInt8.ofNat c.toLower.toNat ∧ c.toLower.toNat < 0x80 := by
  have all : ∀ n < 0x80, lowerByte (UInt8.ofNat n) = UInt8.ofNat (Char.ofNat n).toLower.toNat ∧
      (Char.ofNat n).toLower.toNat < 0x80 := by
    decide
  have this := all c.toNat ascii
  rwa [Char.ofNat_toNat] at this

theorem lowerByte_of_wide {b : UInt8} (wide : 0x80 ≤ b.toNat) : lowerByte b = b := by
  refine if_neg fun ⟨_, letter⟩ => ?_
  rw [UInt8.le_iff_toNat_le] at letter
  exact absurd (wide.trans letter) (by decide)

theorem toLower_of_wide {c : Char} (wide : 0x80 ≤ c.toNat) : c.toLower = c := by
  refine dif_neg fun ⟨_, letter⟩ => ?_
  have letter : c.toNat ≤ 90 := UInt32.le_iff_toNat_le.1 letter
  omega

theorem ofNat_inj_of_ascii {c d : Char} (ascii : c.toNat < 0x80) (ascii' : d.toNat < 0x80) :
    UInt8.ofNat c.toNat = UInt8.ofNat d.toNat ↔ c = d := by
  refine ⟨fun same => ?_, fun same => by rw [same]⟩
  have value := congrArg UInt8.toNat same
  rw [UInt8.toNat_ofNat', UInt8.toNat_ofNat', Nat.mod_eq_of_lt (by omega),
    Nat.mod_eq_of_lt (by omega)] at value
  exact Char.toNat_inj.1 value

theorem lowerBytes_cons (c : Char) (text : List Char) :
    lowerBytes (c :: text) = (String.utf8EncodeChar c).map lowerByte ++ lowerBytes text := by
  rw [lowerBytes, List.flatMap_cons, List.map_append, lowerBytes]

theorem lowerBytes_append (front back : List Char) :
    lowerBytes (front ++ back) = lowerBytes front ++ lowerBytes back := by
  rw [lowerBytes, List.flatMap_append, List.map_append, lowerBytes, lowerBytes]

theorem length_lowerBytes (text : List Char) :
    (lowerBytes text).length = String.utf8Len text := by
  induction text with
  | nil => rfl
  | cons c text ih =>
      rw [lowerBytes_cons, List.length_append, ih, List.length_map, String.length_utf8EncodeChar,
        String.utf8Len_cons, Nat.add_comm]

/-- Characters of ASCII are found in the bytes where they are found in the text, both in lower
case. -/
theorem prefix_lowerBytes_iff {part : List Char} (ascii : ∀ c ∈ part, c.toNat < 0x80)
    (text : List Char) :
    part.map (fun c => UInt8.ofNat c.toNat) <+: lowerBytes text ↔
      part <+: text.map Char.toLower := by
  induction part generalizing text with
  | nil => simp
  | cons d part ih =>
      rw [List.forall_mem_cons] at ascii
      obtain ⟨first, ascii⟩ := ascii
      cases text with
      | nil => simp [lowerBytes]
      | cons c text =>
          rw [lowerBytes_cons, List.map_cons, List.map_cons, List.cons_prefix_cons,
            ← ih ascii text]
          rcases utf8EncodeChar_cases c with ⟨narrow, single⟩ | ⟨wide, bytes⟩
          · obtain ⟨lower, small⟩ := lowerByte_of_ascii narrow
            rw [single, List.map_singleton, lower, List.singleton_append, List.cons_prefix_cons,
              ofNat_inj_of_ascii first small]
          · obtain ⟨b, others, encoded⟩ :=
              List.exists_cons_of_ne_nil (String.utf8EncodeChar_ne_nil (c := c))
            rw [encoded, List.forall_mem_cons] at bytes
            rw [encoded, List.map_cons, lowerByte_of_wide bytes.1, List.cons_append,
              List.cons_prefix_cons, toLower_of_wide wide]
            have other : d ≠ c := by
              rintro rfl
              omega
            have other' : UInt8.ofNat d.toNat ≠ b := by
              rintro rfl
              have := bytes.1
              rw [UInt8.toNat_ofNat', Nat.mod_eq_of_lt (by omega)] at this
              omega
            simp [other, other']

/-- A byte of ASCII begins a character. -/
theorem exists_suffix_of_ascii {text : List Char} {place : Nat} {b : UInt8} {more : List UInt8}
    (stands : (lowerBytes text).drop place = b :: more) (ascii : b.toNat < 0x80) :
    ∃ rest, rest <:+ text ∧ lowerBytes rest = b :: more := by
  induction text generalizing place with
  | nil => simp [lowerBytes] at stands
  | cons c text ih =>
      by_cases first : place = 0
      · subst first
        exact ⟨c :: text, List.suffix_rfl, stands⟩
      · rw [lowerBytes_cons, List.drop_append] at stands
        cases inside : ((String.utf8EncodeChar c).map lowerByte).drop place with
        | nil =>
            rw [inside, List.nil_append] at stands
            obtain ⟨rest, behind, bytes⟩ := ih stands
            exact ⟨rest, behind.trans (List.suffix_cons c text), bytes⟩
        | cons b' others =>
            rw [inside, List.cons_append] at stands
            obtain rfl := (List.cons.inj stands).1
            rcases utf8EncodeChar_cases c with ⟨_, single⟩ | ⟨_, bytes⟩
            · rw [single, List.map_singleton, List.drop_eq_nil_of_le] at inside
              · cases inside
              · exact Nat.pos_of_ne_zero first
            · have member : b' ∈ (String.utf8EncodeChar c).map lowerByte :=
                List.mem_of_mem_drop (inside ▸ List.mem_cons_self)
              obtain ⟨byte, listed, rfl⟩ := List.mem_map.1 member
              have wide := bytes byte listed
              rw [lowerByte_of_wide wide] at ascii
              omega

theorem flatMap_of_ascii {part : List Char} (ascii : ∀ c ∈ part, c.toNat < 0x80) :
    part.flatMap String.utf8EncodeChar = part.map fun c => UInt8.ofNat c.toNat := by
  rw [List.map_eq_flatMap]
  refine List.flatMap_congr fun c listed => ?_
  rcases utf8EncodeChar_cases c with ⟨_, single⟩ | ⟨wide, _⟩
  · exact single
  · exact absurd (ascii c listed) (Nat.not_lt_of_le wide)

/-! ## The closing tag -/

/-- The bytes of the template from this place on begin with a closing body tag, whatever its
case. -/
def ClosesAt (template : String) (place : Nat) : Prop :=
  "</body>".toUTF8.toList <+: (template.toUTF8.toList.map lowerByte).drop place

theorem beginsWithBodyEnd_iff {text : List Char} :
    beginsWithBodyEnd text = true ↔ "</body>".toUTF8.toList <+: lowerBytes text := by
  have all : ("</body>".toList.all fun c => c.toNat < 0x80) = true := by decide
  have ascii : ∀ c ∈ "</body>".toList, c.toNat < 0x80 := fun c listed =>
    of_decide_eq_true (List.all_eq_true.1 all c listed)
  rw [toList_toUTF8, flatMap_of_ascii ascii, prefix_lowerBytes_iff ascii, beginsWithBodyEnd,
    List.isPrefixOf_iff_prefix, List.map_take, List.prefix_take_iff]
  exact and_iff_left (by decide)

theorem closesAt_iff {template : String} {place : Nat} :
    ClosesAt template place ↔ ∃ rest, rest <:+ template.toList ∧ beginsWithBodyEnd rest = true ∧
      place + String.utf8Len rest = String.utf8Len template.toList := by
  have whole : template.toUTF8.toList.map lowerByte = lowerBytes template.toList := by
    rw [toList_toUTF8, lowerBytes]
  rw [ClosesAt, whole]
  constructor
  · intro closes
    obtain ⟨more, same⟩ := id closes
    obtain ⟨b, others, first, ascii⟩ : ∃ b others,
        "</body>".toUTF8.toList = b :: others ∧ b.toNat < 0x80 := by
      rw [toList_toUTF8]
      exact ⟨_, _, rfl, by decide⟩
    rw [first, List.cons_append] at same
    obtain ⟨rest, behind, bytes⟩ := exists_suffix_of_ascii same.symm ascii
    have sizes := congrArg List.length (bytes.trans same)
    rw [List.length_drop, length_lowerBytes, length_lowerBytes] at sizes
    refine ⟨rest, behind, beginsWithBodyEnd_iff.2 ?_, ?_⟩
    · rw [bytes, same]
      exact closes
    · have positive := congrArg List.length bytes
      rw [length_lowerBytes, List.length_cons] at positive
      omega
  · rintro ⟨rest, ⟨before, same⟩, begins, size⟩
    rw [← same, String.utf8Len_append, Nat.add_right_cancel_iff] at size
    rw [← same, lowerBytes_append, List.drop_left' ((length_lowerBytes before).trans size.symm)]
    exact beginsWithBodyEnd_iff.1 begins

theorem isGreatest_closesAt {template : String} {before rest : List Char}
    (split : splitLast? beginsWithBodyEnd template.toList = some (before, rest)) :
    IsGreatest {place | ClosesAt template place} (String.utf8Len before) := by
  obtain ⟨same, begins, last⟩ := eq_of_splitLast? split
  constructor
  · rw [Set.mem_ofPred_eq, closesAt_iff]
    refine ⟨rest, ⟨before, same.symm⟩, begins, ?_⟩
    rw [same, String.utf8Len_append]
  · intro other closes
    obtain ⟨later, behind, begins, place⟩ := closesAt_iff.1 closes
    have shorter := String.utf8Len_le_of_suffix (last later behind begins)
    rw [same, String.utf8Len_append] at place
    omega

theorem not_closesAt {template : String}
    (split : splitLast? beginsWithBodyEnd template.toList = none) (place : Nat) :
    ¬ClosesAt template place := by
  intro closes
  obtain ⟨later, behind, begins, _⟩ := closesAt_iff.1 closes
  rw [splitLast?_eq_none_iff.1 split later behind] at begins
  cases begins

/-! ## The page -/

/-- The page is the template with the tags put in at a place: before the last closing body tag, or
at the end if there is none. The place lies between two characters. -/
structure Inserts (template tags page : String) (place : Nat) : Prop where
  last : IsGreatest {other | ClosesAt template other} place ∨
    (∀ other, ¬ClosesAt template other) ∧ place = template.utf8ByteSize
  boundary : String.Pos.Raw.IsValid template ⟨place⟩
  parts : ∃ before rest, template = before ++ rest ∧ before.utf8ByteSize = place ∧
    page = before ++ tags ++ rest

theorem exists_inserts_render (template title : String) (addresses : List String) :
    ∃ place, Inserts template
      (String.join (addresses.map fun address =>
        "<script defer src=\"" ++ address ++ "\"></script>\n"))
      (render (some template) title addresses) place := by
  cases split : splitLast? beginsWithBodyEnd template.toList with
  | some parts =>
      obtain ⟨before, rest⟩ := parts
      have whole : template = String.ofList before ++ String.ofList rest := by
        rw [← String.ofList_append, ← (eq_of_splitLast? split).1, String.ofList_toList]
      have page : render (some template) title addresses =
          String.ofList before ++ scriptTags addresses ++ String.ofList rest := by
        simp only [render, split]
      refine ⟨(String.ofList before).utf8ByteSize, .inl ?_, ?_, _, _, whole, rfl, page⟩
      · rw [String.utf8ByteSize_ofList]
        exact isGreatest_closesAt split
      · rw [whole]
        exact String.Pos.Raw.isValid_rawEndPos.append_right _
  | none =>
      have page : render (some template) title addresses = template ++ scriptTags addresses := by
        simp only [render, split]
      refine ⟨template.utf8ByteSize, .inr ⟨not_closesAt split, rfl⟩,
        String.Pos.Raw.isValid_rawEndPos, template, "", ?_, rfl, ?_⟩
      · rw [String.append_empty]
      · rw [page, String.append_empty]
        rfl

example : render (some "<p>İ</BODY>ß</body>") "" ["/a.js"] =
    "<p>İ</BODY>ß<script defer src=\"/a.js\"></script>\n</body>" := rfl

end WebBundle.Page
