import Mathlib
import PointsTo.Proofs.BuiltTables

/-!
# Texts of types

The facts of a description name types by their texts only. In a table that is built in order the
text of a type is made of the texts of its parts, with no bound on the depth, and different types
have different texts.

Texts are read from left to right: if two of them begin the same sequence of characters, then they
are texts of one type and the same characters follow. A number is the one thing that could go on,
so this needs that no digit follows. The two types have the same parts by induction; so they are
one entry of the table, which has each type once.
-/

namespace PointsTo

/-! ## Numbers and scalars -/

/-- Characters that do not begin with a digit. -/
def Stops (rest : List Char) : Prop := ∀ c ∈ rest.head?, c.isDigit = false

theorem stops_nil : Stops [] := by simp [Stops]

theorem stops_cons {c : Char} {rest : List Char} (h : c.isDigit = false) : Stops (c :: rest) := by
  simpa [Stops] using h

theorem Stops.takeWhile_isDigit {rest : List Char} (h : Stops rest) :
    rest.takeWhile Char.isDigit = [] := by
  cases rest with
  | nil => rfl
  | cons c rest => simp [h c rfl]

/-- A number ends where its digits end. -/
theorem digits_append_inj {n k : Nat} {r r' : List Char} (hr : Stops r) (hr' : Stops r')
    (h : Nat.toDigits 10 n ++ r = Nat.toDigits 10 k ++ r') : n = k ∧ r = r' := by
  have hdigits : ∀ i, ∀ c ∈ Nat.toDigits 10 i, c.isDigit = true := fun i c hc =>
    Nat.isDigit_of_mem_toDigits (by decide) (le_refl 10) hc
  have htake := congrArg (List.takeWhile Char.isDigit) h
  rw [List.takeWhile_append_of_pos (hdigits n), List.takeWhile_append_of_pos (hdigits k),
    hr.takeWhile_isDigit, hr'.takeWhile_isDigit, List.append_nil, List.append_nil] at htake
  have hvalue := congrArg (fun digits => Nat.ofDigitChars 10 digits 0) htake
  simp only [Nat.ofDigitChars_toDigits (by decide : 1 < 10) (le_refl 10)] at hvalue
  rw [htake] at h
  exact ⟨hvalue, List.append_cancel_left h⟩

theorem IntType.toList_text (t : IntType) : t.text.toList = 'i' :: Nat.toDigits 10 t.bits := by
  simp [IntType.text, toString]

theorem IntType.eq_of_bits {a b : IntType} (h : a.bits = b.bits) : a = b := by
  cases a
  cases b
  simpa using h

theorem FloatType.text_append_inj {a b : FloatType} {r r' : List Char}
    (h : a.text.toList ++ r = b.text.toList ++ r') : a = b ∧ r = r' := by
  have heq : a = b := by
    cases a <;> cases b <;> simp [FloatType.text] at h ⊢
  subst heq
  exact ⟨rfl, List.append_cancel_left h⟩

/-- The text of a scalar ends where the scalar ends. -/
theorem Scalar.text_append_inj {a b : Scalar} {r r' : List Char} (hr : Stops r) (hr' : Stops r')
    (h : a.text.toList ++ r = b.text.toList ++ r') : a = b ∧ r = r' := by
  cases a with
  | int t =>
    rw [Scalar.text, IntType.toList_text] at h
    cases b with
    | int t' =>
      rw [Scalar.text, IntType.toList_text] at h
      obtain ⟨hbits, hrest⟩ := digits_append_inj hr hr' (List.cons.inj h).2
      exact ⟨congrArg Scalar.int (IntType.eq_of_bits hbits), hrest⟩
    | float t' => cases t' <;> simp [Scalar.text, FloatType.text] at h
    | ptr => simp [Scalar.text] at h
  | float t =>
    cases b with
    | int t' =>
      rw [Scalar.text, Scalar.text, IntType.toList_text] at h
      cases t <;> simp [FloatType.text] at h
    | float t' =>
      obtain ⟨ht, hrest⟩ := FloatType.text_append_inj h
      exact ⟨congrArg Scalar.float ht, hrest⟩
    | ptr => cases t <;> simp [Scalar.text, FloatType.text] at h
  | ptr =>
    cases b with
    | int t' =>
      rw [Scalar.text, Scalar.text, IntType.toList_text] at h
      simp at h
    | float t' => cases t' <;> simp [Scalar.text, FloatType.text] at h
    | ptr => exact ⟨rfl, List.append_cancel_left h⟩

/-! ## How texts begin -/

namespace Ty

section Texts

variable (child : TypeId → String) (r : List Char)

theorem vector_text_append (element : Scalar) (n : Nat) :
    ((Ty.vector element n).text child).toList ++ r =
      '<' :: (Nat.toDigits 10 n ++ ' ' :: 'x' :: ' ' :: (element.text.toList ++ '>' :: r)) := by
  simp [Ty.text, toString]

theorem label_text_append :
    (Ty.label.text child).toList ++ r = 'l' :: 'a' :: 'b' :: 'e' :: 'l' :: r := by
  simp [Ty.text]

theorem array_text_append (element : TypeId) (n : Nat) :
    ((Ty.array element n).text child).toList ++ r =
      '[' :: (Nat.toDigits 10 n ++ ' ' :: 'x' :: ' ' :: ((child element).toList ++ ']' :: r)) := by
  simp [Ty.text, toString]

/-- What follows the first field of a structure, up to its end and beyond. -/
def moreFields : List TypeId → List Char
  | [] => ' ' :: '\x7d' :: r
  | c :: rest => ',' :: ' ' :: ((child c).toList ++ moreFields rest)

/-- What follows the opening of a structure. -/
def allFields : List TypeId → List Char
  | [] => ' ' :: '\x7d' :: r
  | c :: rest => (child c).toList ++ moreFields child r rest

theorem stops_moreFields (fields : List TypeId) : Stops (moreFields child r fields) := by
  cases fields with
  | nil => exact stops_cons rfl
  | cons c rest => exact stops_cons rfl

theorem struct_text_append (fields : List TypeId) :
    ((Ty.struct fields).text child).toList ++ r = '\x7b' :: ' ' :: allFields child r fields := by
  have hfields : [',', ' '].intercalate (fields.map fun c => (child c).toList) ++
      ' ' :: '\x7d' :: r = allFields child r fields := by
    cases fields with
    | nil => rfl
    | cons c rest =>
      rw [allFields]
      induction rest generalizing c with
      | nil => simp [moreFields]
      | cons d rest ih =>
        rw [moreFields, ← ih d, List.map_cons, List.map_cons, List.intercalate_cons_cons]
        simp
  rw [← hfields]
  simp [Ty.text, String.toList_intercalate, Function.comp_def]

end Texts

variable {child : TypeId → String}

/-- The scalar that the type is. -/
def scalar? : Ty → Option Scalar
  | .int t => some (.int t)
  | .float t => some (.float t)
  | .ptr => some .ptr
  | _ => none

theorem text_of_scalar? {ty : Ty} {a : Scalar} (h : ty.scalar? = some a) :
    ty.text child = a.text := by
  cases ty <;> cases h <;> rfl

theorem eq_of_scalar? {ty ty' : Ty} {a : Scalar} (h : ty.scalar? = some a)
    (h' : ty'.scalar? = some a) : ty = ty' := by
  cases ty <;> cases h <;> cases ty' <;> cases h' <;> rfl

/-- The characters that begin the texts of types other than scalars. -/
def marks : List Char := ['<', 'l', '[', '\x7b']

/-- Texts do not begin with a space, and how they begin tells scalars from other types. -/
theorem exists_initial (child : TypeId → String) (ty : Ty) (r : List Char) :
    ∃ c rest, (ty.text child).toList ++ r = c :: rest ∧ c ≠ ' ' ∧
      (c ∈ marks ↔ ty.scalar? = none) := by
  cases ty with
  | int t =>
    rw [Ty.text, t.toList_text]
    exact ⟨_, _, rfl, by decide, by simp [marks, scalar?]⟩
  | float t => cases t <;> simp [Ty.text, FloatType.text, marks, scalar?]
  | ptr => simp [Ty.text, marks, scalar?]
  | vector element n =>
    exact ⟨_, _, vector_text_append child r element n, by decide, by simp [marks, scalar?]⟩
  | label => exact ⟨_, _, label_text_append child r, by decide, by simp [marks, scalar?]⟩
  | array element n =>
    exact ⟨_, _, array_text_append child r element n, by decide, by simp [marks, scalar?]⟩
  | struct fields =>
    exact ⟨_, _, struct_text_append child r fields, by decide, by simp [marks, scalar?]⟩

/-- Texts that begin with the same character are both texts of scalars, or both not. -/
theorem scalar?_eq_none_iff_of_text {ty ty' : Ty} {r r' : List Char}
    (h : (ty.text child).toList ++ r = (ty'.text child).toList ++ r') :
    ty.scalar? = none ↔ ty'.scalar? = none := by
  obtain ⟨c, rest, htext, -, hmarks⟩ := exists_initial child ty r
  obtain ⟨c', rest', htext', -, hmarks'⟩ := exists_initial child ty' r'
  obtain ⟨rfl, -⟩ := List.cons.inj (htext.symm.trans (h.trans htext'))
  exact hmarks.symm.trans hmarks'

end Ty

namespace TypeTable

variable {t : TypeTable} {id : TypeId} {ty ty' : Ty} {r r' : List Char}

/-! ## Texts without a bound -/

/-- The text of a type is made of the texts of the types that it is built from. -/
theorem Known.text_unfold (h : t.Known id) (hty : t.get? id = some ty) :
    t.text id = ty.text t.text := by
  rw [text, textWithin, hty]
  refine Ty.text_congr fun c hc => ?_
  have hunfolds := (h.of_part (part_iff.2 ⟨ty, hty, hc⟩)).unfoldsWithin
  exact (hunfolds.textWithin_eq (.refl t) le_rfl (Nat.le_succ _)).symm

/-- Texts are made by going inside of types with no bound, and there is an end to that. -/
structure Formats (t : TypeTable) : Prop where
  wellFounded : WellFounded t.Part
  known : ∀ id ty, t.get? id = some ty → t.text id = ty.text t.text
  unknown : ∀ id, t.get? id = none → t.text id = unknownText id

theorem Built.formats (h : t.Built) : t.Formats where
  wellFounded := by
    refine ⟨fun id => ?_⟩
    refine .intro id fun c hc => ?_
    obtain ⟨ty, hty, -⟩ := part_iff.1 hc
    exact ((h.known (lt_size_of_get? hty)).of_part hc).acc
  known id ty hty := (h.known (lt_size_of_get? hty)).text_unfold hty
  unknown id hty := by rw [text, textWithin, hty]

/-! ## Texts are read in one way -/

/-- If the text of a known type begins the same characters as the text of the type, then it is
that type, and the same characters follow. -/
def Readable (t : TypeTable) (id : TypeId) : Prop :=
  ∀ id' r r', t.Known id' → Stops r → Stops r' →
    (t.text id).toList ++ r = (t.text id').toList ++ r' → id = id' ∧ r = r'

theorem Known.exists_initial (h : t.Known id) (r : List Char) :
    ∃ c rest, (t.text id).toList ++ r = c :: rest ∧ c ≠ ' ' := by
  obtain ⟨ty, hty⟩ := exists_get?_of_lt h.lt_size
  obtain ⟨c, rest, htext, hspace, -⟩ := Ty.exists_initial t.text ty r
  rw [h.text_unfold hty]
  exact ⟨c, rest, htext, hspace⟩

theorem moreFields_inj {fields fields' : List TypeId} (hread : ∀ c ∈ fields, t.Readable c)
    (hknown' : ∀ c ∈ fields', t.Known c)
    (h : Ty.moreFields t.text r fields = Ty.moreFields t.text r' fields') :
    fields = fields' ∧ r = r' := by
  induction fields generalizing fields' with
  | nil =>
    cases fields' with
    | nil => simpa [Ty.moreFields] using h
    | cons d rest' => simp [Ty.moreFields] at h
  | cons c rest ih =>
    cases fields' with
    | nil => simp [Ty.moreFields] at h
    | cons d rest' =>
      rw [List.forall_mem_cons] at hread hknown'
      simp only [Ty.moreFields, List.cons.injEq, true_and] at h
      obtain ⟨rfl, hmore⟩ := hread.1 d _ _ hknown'.1 (Ty.stops_moreFields _ _ rest)
        (Ty.stops_moreFields _ _ rest') h
      obtain ⟨rfl, hr⟩ := ih hread.2 hknown'.2 hmore
      exact ⟨rfl, hr⟩

/-- A structure without fields has a space where others have the text of the first field. -/
theorem allFields_inj {fields fields' : List TypeId} (hread : ∀ c ∈ fields, t.Readable c)
    (hknown : ∀ c ∈ fields, t.Known c) (hknown' : ∀ c ∈ fields', t.Known c)
    (h : Ty.allFields t.text r fields = Ty.allFields t.text r' fields') :
    fields = fields' ∧ r = r' := by
  cases fields with
  | nil =>
    cases fields' with
    | nil => simpa [Ty.allFields] using h
    | cons d rest' =>
      obtain ⟨a, more, htext, hspace⟩ := (hknown' d List.mem_cons_self).exists_initial
        (Ty.moreFields t.text r' rest')
      rw [Ty.allFields, Ty.allFields, htext] at h
      exact absurd (List.cons.inj h).1.symm hspace
  | cons c rest =>
    cases fields' with
    | nil =>
      obtain ⟨a, more, htext, hspace⟩ := (hknown c List.mem_cons_self).exists_initial
        (Ty.moreFields t.text r rest)
      rw [Ty.allFields, Ty.allFields, htext] at h
      exact absurd (List.cons.inj h).1 hspace
    | cons d rest' =>
      rw [List.forall_mem_cons] at hread hknown'
      obtain ⟨rfl, hmore⟩ := hread.1 d _ _ hknown'.1 (Ty.stops_moreFields _ _ rest)
        (Ty.stops_moreFields _ _ rest') h
      obtain ⟨rfl, hr⟩ := moreFields_inj hread.2 hknown'.2 hmore
      exact ⟨rfl, hr⟩

/-- Types other than scalars begin with different characters, and then come their sizes and
parts. -/
theorem compound_text_append_inj (hread : ∀ c ∈ ty.children, t.Readable c)
    (hknown : ∀ c ∈ ty.children, t.Known c) (hknown' : ∀ c ∈ ty'.children, t.Known c)
    (hty : ty.scalar? = none) (hty' : ty'.scalar? = none)
    (h : (ty.text t.text).toList ++ r = (ty'.text t.text).toList ++ r') : ty = ty' ∧ r = r' := by
  cases ty with
  | vector element n =>
    rw [Ty.vector_text_append] at h
    cases ty' with
    | vector element' n' =>
      rw [Ty.vector_text_append] at h
      obtain ⟨rfl, hrest⟩ := digits_append_inj (stops_cons rfl) (stops_cons rfl)
        (List.cons.inj h).2
      simp only [List.cons.injEq, true_and] at hrest
      obtain ⟨rfl, hclose⟩ := Scalar.text_append_inj (stops_cons rfl) (stops_cons rfl) hrest
      exact ⟨rfl, (List.cons.inj hclose).2⟩
    | label => simp [Ty.label_text_append] at h
    | array element' n' => simp [Ty.array_text_append] at h
    | struct fields' => simp [Ty.struct_text_append] at h
    | _ => cases hty'
  | label =>
    rw [Ty.label_text_append] at h
    cases ty' with
    | vector element' n' => simp [Ty.vector_text_append] at h
    | label =>
      rw [Ty.label_text_append] at h
      simpa using h
    | array element' n' => simp [Ty.array_text_append] at h
    | struct fields' => simp [Ty.struct_text_append] at h
    | _ => cases hty'
  | array element n =>
    rw [Ty.array_text_append] at h
    cases ty' with
    | vector element' n' => simp [Ty.vector_text_append] at h
    | label => simp [Ty.label_text_append] at h
    | array element' n' =>
      rw [Ty.array_text_append] at h
      obtain ⟨rfl, hrest⟩ := digits_append_inj (stops_cons rfl) (stops_cons rfl)
        (List.cons.inj h).2
      simp only [List.cons.injEq, true_and] at hrest
      obtain ⟨rfl, hclose⟩ := hread element (List.mem_singleton_self _) element' _ _
        (hknown' element' (List.mem_singleton_self _)) (stops_cons rfl) (stops_cons rfl) hrest
      exact ⟨rfl, (List.cons.inj hclose).2⟩
    | struct fields' => simp [Ty.struct_text_append] at h
    | _ => cases hty'
  | struct fields =>
    rw [Ty.struct_text_append] at h
    cases ty' with
    | vector element' n' => simp [Ty.vector_text_append] at h
    | label => simp [Ty.label_text_append] at h
    | array element' n' => simp [Ty.array_text_append] at h
    | struct fields' =>
      rw [Ty.struct_text_append] at h
      simp only [List.cons.injEq, true_and] at h
      obtain ⟨rfl, hr⟩ := allFields_inj hread hknown hknown' h
      exact ⟨rfl, hr⟩
    | _ => cases hty'
  | _ => cases hty

theorem text_append_inj (hread : ∀ c ∈ ty.children, t.Readable c)
    (hknown : ∀ c ∈ ty.children, t.Known c) (hknown' : ∀ c ∈ ty'.children, t.Known c)
    (hr : Stops r) (hr' : Stops r')
    (h : (ty.text t.text).toList ++ r = (ty'.text t.text).toList ++ r') : ty = ty' ∧ r = r' := by
  have hkind := Ty.scalar?_eq_none_iff_of_text h
  cases hty : ty.scalar? with
  | none => exact compound_text_append_inj hread hknown hknown' hty (hkind.1 hty) h
  | some a =>
    obtain ⟨a', hty'⟩ : ∃ a', ty'.scalar? = some a' := by
      rw [← Option.isSome_iff_exists, ← Option.ne_none_iff_isSome, ne_eq, ← hkind, hty]
      simp
    rw [Ty.text_of_scalar? hty, Ty.text_of_scalar? hty'] at h
    obtain ⟨rfl, hrest⟩ := Scalar.text_append_inj hr hr' h
    exact ⟨Ty.eq_of_scalar? hty hty', hrest⟩

/-- The induction is on how the type is known: its parts are read in one way, so it has the
parts of the other type, and the table has it once. -/
theorem Known.readable (h : t.Known id) : t.Readable id := by
  induction h with
  | @intro id ty hty hchildren ih =>
    intro id' r r' hid' hr hr' htext
    have hid : t.Known id := .intro hty hchildren
    obtain ⟨ty', hty'⟩ := exists_get?_of_lt hid'.lt_size
    have hchildren' : ∀ c ∈ ty'.children, t.Known c :=
      fun c hc => hid'.of_part (part_iff.2 ⟨ty', hty', hc⟩)
    rw [hid.text_unfold hty, hid'.text_unfold hty'] at htext
    obtain ⟨rfl, hrest⟩ := text_append_inj ih hchildren hchildren' hr hr' htext
    exact ⟨eq_of_get? hty hty', hrest⟩

/-- In a table that is built in order, types have texts, which are made with no bound on the
depth, and types with the same text are the same type. -/
theorem Built.text_eq_iff (h : t.Built) :
    t.Formats ∧ ∀ a b : TypeId, a.index < t.size → b.index < t.size →
      (t.text a = t.text b ↔ a = b) := by
  refine ⟨h.formats, fun a b ha hb => ⟨fun htext => ?_, fun heq => congrArg t.text heq⟩⟩
  have hread := (h.known ha).readable
  have hchars : (t.text a).toList ++ [] = (t.text b).toList ++ [] := by rw [htext]
  exact (hread b [] [] (h.known hb) stops_nil stops_nil hchars).1

/-- Structures of structures without fields, and integers whose texts begin alike. -/
def lookalike : TypeTable :=
  .ofList [.int .i1, .int .i16, .struct [], .struct [⟨2⟩], .struct [⟨2⟩, ⟨2⟩], .struct [⟨3⟩],
    .array ⟨0⟩ 1, .array ⟨1⟩ 1, .vector (.int .i1) 1]

theorem built_lookalike : lookalike.Built := by
  have hbit := @Built.intern .empty (.int .i1) .empty (by decide)
  have hshort := @Built.intern _ (.int .i16) hbit (by decide)
  have hempty := @Built.intern _ (.struct []) hshort (by decide)
  have hone := @Built.intern _ (.struct [⟨2⟩]) hempty (by decide)
  have htwo := @Built.intern _ (.struct [⟨2⟩, ⟨2⟩]) hone (by decide)
  have hdeep := @Built.intern _ (.struct [⟨3⟩]) htwo (by decide)
  have hbits := @Built.intern _ (.array ⟨0⟩ 1) hdeep (by decide)
  have hshorts := @Built.intern _ (.array ⟨1⟩ 1) hbits (by decide)
  exact @Built.intern _ (.vector (.int .i1) 1) hshorts (by decide)

theorem lookalike_text_eq_iff :
    lookalike.Built ∧ lookalike.text ⟨4⟩ = "\x7b \x7b  \x7d, \x7b  \x7d \x7d" ∧
      lookalike.text ⟨5⟩ = "\x7b \x7b \x7b  \x7d \x7d \x7d" ∧ lookalike.Formats ∧
      ∀ a b : TypeId, a.index < 9 → b.index < 9 →
        (lookalike.text a = lookalike.text b ↔ a = b) := by
  have h := built_lookalike.text_eq_iff
  exact ⟨built_lookalike, by decide +kernel, by decide +kernel, h.1, h.2⟩

end TypeTable

end PointsTo
