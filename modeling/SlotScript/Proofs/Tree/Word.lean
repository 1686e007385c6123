import SlotScript.Tree.Outline
import SlotScript.Proofs.Decimal.Exact
import SlotScript.Proofs.Text.Quoted
import SlotScript.Proofs.Tree.Legible

/-!
# Words and lists of an outline

Names, keywords and numbers are words. A word ends where a place begins, at a blank, or at something that
closes, so it can be read back (`word_unique`), and so can the place behind a name (`Place.text_unique`).
A list with separators can be read back if its items can (`joined_unique`).
-/

namespace SlotScript

/-- The characters of names, keywords and numbers. -/
def isWordChar (c : Char) : Bool := continuesName c || c == '#' || c == '.' || c == '-'

/-- What may come after a node. -/
def Stops (rest : List Char) : Prop := ∀ c ∈ rest.head?, c ∈ [' ', ')', ';', '\x7d']

theorem stops_cons {c : Char} {rest : List Char} (h : c ∈ [' ', ')', ';', '\x7d']) : Stops (c :: rest) := by
  intro c' hc'
  cases hc'
  exact h

theorem Stops.not_isWordChar {rest : List Char} (h : Stops rest) :
    ∀ c ∈ rest.head?, isWordChar c = false := by
  intro c hc
  have hstop := h c hc
  simp only [List.mem_cons, List.not_mem_nil, or_false] at hstop
  rcases hstop with rfl | rfl | rfl | rfl <;> rfl

theorem isWordChar_of_isDigit {c : Char} (h : c.isDigit = true) : isWordChar c = true := by
  simp [isWordChar, continuesName, h]

theorem isDigit_of_mem_toString {n : Nat} {c : Char} (h : c ∈ (toString n).toList) :
    c.isDigit = true := by
  have htext : (toString n).toList = Nat.toDigits 10 n := Nat.toList_repr
  rw [htext] at h
  exact Decimal.isDigit_of_mem_toDigits h

theorem digits_unique {n m : Nat} {rest rest' : List Char} (hrest : ∀ c ∈ rest.head?, c.isDigit = false)
    (hrest' : ∀ c ∈ rest'.head?, c.isDigit = false)
    (h : (toString n).toList ++ rest = (toString m).toList ++ rest') : n = m ∧ rest = rest' := by
  obtain ⟨hnumber, hrest⟩ := append_unique (fun c => isDigit_of_mem_toString)
    (fun c => isDigit_of_mem_toString) hrest hrest' h
  exact ⟨Nat.repr_inj.mp (String.toList_inj.mp hnumber), hrest⟩

theorem exists_digit (n : Nat) : ∃ c more, (toString n).toList = c :: more ∧ c.isDigit = true := by
  have htext : (toString n).toList = Nat.toDigits 10 n := Nat.toList_repr
  have hne : Nat.toDigits 10 n ≠ [] := Nat.toDigits_ne_nil
  obtain ⟨c, more, hmore⟩ := List.exists_cons_of_ne_nil (htext ▸ hne)
  have hc : c ∈ (toString n).toList := by
    rw [hmore]
    exact List.mem_cons_self
  exact ⟨c, more, hmore, isDigit_of_mem_toString hc⟩

/-- The index of a slot as a place shows it. -/
def SlotClass.indexText (index : Nat) : SlotClass → List Char
  | .var => (toString index).toList
  | .const => "const ".toList ++ (toString index).toList

theorem SlotClass.indexText_var (index : Nat) :
    SlotClass.var.indexText index = (toString index).toList := rfl

theorem SlotClass.indexText_const (index : Nat) :
    SlotClass.const.indexText index = "const ".toList ++ (toString index).toList := rfl

theorem Place.toList_text_slot (distance index : Nat) (slotClass : SlotClass) :
    (Place.slot distance index slotClass).text.toList =
      '(' :: ((toString distance).toList ++ ',' :: ' ' :: (slotClass.indexText index ++ [')'])) := by
  cases slotClass <;> simp [text, SlotClass.indexText_var, SlotClass.indexText_const]

theorem SlotClass.indexText_unique {index index' : Nat} {slotClass slotClass' : SlotClass}
    {rest rest' : List Char} (h : slotClass.indexText index ++ ')' :: rest =
      slotClass'.indexText index' ++ ')' :: rest') :
    index = index' ∧ slotClass = slotClass' ∧ rest = rest' := by
  have hnumber : ∀ {n m : Nat}, (toString n).toList ++ ')' :: rest = (toString m).toList ++ ')' :: rest' →
      n = m ∧ rest = rest' := by
    intro n m h
    obtain ⟨hnumber, hrest⟩ := digits_unique (by simp) (by simp) h
    exact ⟨hnumber, (List.cons.inj hrest).2⟩
  -- the word before the index of a constant does not start with a digit
  have hconst : ∀ (n : Nat) more more', (toString n).toList ++ more ≠ "const ".toList ++ more' := by
    intro n more more' heq
    obtain ⟨c, digits, hdigits, hc⟩ := exists_digit n
    rw [hdigits] at heq
    obtain rfl : c = 'c' := (List.cons.inj heq).1
    cases hc
  cases slotClass with
  | var =>
    cases slotClass' with
    | var =>
      obtain ⟨hindex, hrest⟩ := hnumber h
      exact ⟨hindex, rfl, hrest⟩
    | const =>
      rw [indexText_var, indexText_const, List.append_assoc] at h
      exact absurd h (hconst _ _ _)
  | const =>
    cases slotClass' with
    | var =>
      rw [indexText_const, indexText_var, List.append_assoc] at h
      exact absurd h.symm (hconst _ _ _)
    | const =>
      rw [indexText_const, indexText_const, List.append_assoc, List.append_assoc] at h
      obtain ⟨hindex, hrest⟩ := hnumber (List.append_cancel_left h)
      exact ⟨hindex, rfl, hrest⟩

/-- A place can be read back. -/
theorem Place.text_unique {place place' : Place} {rest rest' : List Char} (hplace : place ≠ .unresolved)
    (hplace' : place' ≠ .unresolved) (h : place.text.toList ++ rest = place'.text.toList ++ rest') :
    place = place' ∧ rest = rest' := by
  have hglobal : ∀ distance index slotClass more more',
      (Place.slot distance index slotClass).text.toList ++ more ≠ "global".toList ++ more' := by
    intro distance index slotClass more more' heq
    rw [toList_text_slot] at heq
    exact absurd (List.cons.inj heq).1 (by decide)
  cases place with
  | unresolved => exact absurd rfl hplace
  | global =>
    cases place' with
    | unresolved => exact absurd rfl hplace'
    | global => exact ⟨rfl, List.append_cancel_left h⟩
    | slot distance index slotClass => exact absurd h.symm (hglobal _ _ _ _ _)
  | slot distance index slotClass =>
    cases place' with
    | unresolved => exact absurd rfl hplace'
    | global => exact absurd h (hglobal _ _ _ _ _)
    | slot distance' index' slotClass' =>
      rw [toList_text_slot, toList_text_slot, List.cons_append, List.cons_append, List.append_assoc,
        List.append_assoc] at h
      obtain ⟨rfl, hindex⟩ := digits_unique (by simp) (by simp) (List.cons.inj h).2
      have hindex : slotClass.indexText index ++ ')' :: rest =
          slotClass'.indexText index' ++ ')' :: rest' := by simpa using hindex
      obtain ⟨rfl, rfl, hrest⟩ := SlotClass.indexText_unique hindex
      exact ⟨rfl, hrest⟩

/-- The place behind a name, if there is one. -/
def placeText : Option Place → List Char
  | none => []
  | some place => '@' :: place.text.toList

/-- A word can be read back, with the place behind it. -/
theorem word_unique {word word' rest rest' : List Char} {place place' : Option Place}
    (hword : ∀ c ∈ word, isWordChar c = true) (hword' : ∀ c ∈ word', isWordChar c = true)
    (hplace : ∀ p ∈ place, p ≠ .unresolved) (hplace' : ∀ p ∈ place', p ≠ .unresolved)
    (hrest : Stops rest) (hrest' : Stops rest')
    (h : word ++ (placeText place ++ rest) = word' ++ (placeText place' ++ rest')) :
    word = word' ∧ place = place' ∧ rest = rest' := by
  have hends : ∀ {place rest}, Stops rest → ∀ c ∈ (placeText place ++ rest).head?, isWordChar c = false := by
    intro place rest hrest
    cases place with
    | none => exact hrest.not_isWordChar
    | some place =>
      rintro c ⟨⟩
      rfl
  have hat : ∀ {place : Place} {rest rest'}, Stops rest' → placeText (some place) ++ rest ≠ rest' := by
    rintro place rest _ hrest' rfl
    have hmem := hrest' '@' rfl
    simp at hmem
  obtain ⟨rfl, htail⟩ := append_unique hword hword' (hends hrest) (hends hrest') h
  refine ⟨rfl, ?_⟩
  cases place with
  | none =>
    cases place' with
    | none => exact ⟨rfl, htail⟩
    | some place' => exact absurd htail.symm (hat hrest)
  | some place =>
    cases place' with
    | none => exact absurd htail (hat hrest')
    | some place' =>
      obtain ⟨rfl, hrest⟩ := Place.text_unique (hplace place rfl) (hplace' place' rfl) (List.cons.inj htail).2
      exact ⟨rfl, hrest⟩

theorem toList_outlineName (name : String) {place : Place} (h : place ≠ .unresolved) :
    (outlineName name place).toList = name.toList ++ placeText (some place) := by
  cases place with
  | unresolved => exact absurd rfl h
  | global | slot => simp [outlineName, placeText]

theorem IsName.isWordChar {name : String} (h : IsName name) : ∀ c ∈ name.toList, isWordChar c = true := by
  intro c hc
  simp [SlotScript.isWordChar, h.chars c hc]

/-- A name with its place can be read back. -/
theorem outlineName_unique {name name' : String} {place place' : Place} {rest rest' : List Char}
    (hname : IsName name) (hname' : IsName name') (hplace : place ≠ .unresolved)
    (hplace' : place' ≠ .unresolved) (hrest : Stops rest) (hrest' : Stops rest')
    (h : (outlineName name place).toList ++ rest = (outlineName name' place').toList ++ rest') :
    name = name' ∧ rest = rest' := by
  rw [toList_outlineName name hplace, toList_outlineName name' hplace', List.append_assoc,
    List.append_assoc] at h
  obtain ⟨heq, -, hrest⟩ := word_unique hname.isWordChar hname'.isWordChar (by simpa using hplace)
    (by simpa using hplace') hrest hrest' h
  exact ⟨String.toList_inj.mp heq, hrest⟩

/-- So can the name of a function: one without a name of its own has no place. -/
theorem functionName_unique {name name' : String} {binding binding' : Option VarRef}
    {rest rest' : List Char} (hname : IsFunctionName binding.isNone name)
    (hname' : IsFunctionName binding'.isNone name') (hplace : ∀ var ∈ binding, var.place ≠ .unresolved)
    (hplace' : ∀ var ∈ binding', var.place ≠ .unresolved) (hrest : Stops rest) (hrest' : Stops rest')
    (h : (outlineName name (bindingPlace binding)).toList ++ rest =
      (outlineName name' (bindingPlace binding')).toList ++ rest') :
    name = name' ∧ binding.isSome = binding'.isSome ∧ rest = rest' := by
  have hword : ∀ {name : String} {binding : Option VarRef}, IsFunctionName binding.isNone name →
      ∀ c ∈ name.toList, isWordChar c = true := by
    intro name binding hname
    cases binding with
    | some var => exact IsName.isWordChar hname
    | none =>
      obtain ⟨n, rfl⟩ := hname
      intro c hc
      rw [String.toList_append, List.mem_append] at hc
      rcases hc with hc | hc
      · have hanon : "anon#".toList.all isWordChar = true := by decide +kernel
        exact List.all_eq_true.mp hanon c hc
      · exact isWordChar_of_isDigit (isDigit_of_mem_toString hc)
  have htext : ∀ {name : String} {binding : Option VarRef}, (∀ var ∈ binding, var.place ≠ .unresolved) →
      (outlineName name (bindingPlace binding)).toList =
        name.toList ++ placeText (binding.map VarRef.place) := by
    intro name binding hplace
    cases binding with
    | none => simp [bindingPlace, outlineName, placeText]
    | some var => exact toList_outlineName name (hplace var rfl)
  rw [htext hplace, htext hplace', List.append_assoc, List.append_assoc] at h
  obtain ⟨heq, hbinding, hrest⟩ := word_unique (hword hname) (hword hname')
    (by simpa using hplace) (by simpa using hplace') hrest hrest' h
  refine ⟨String.toList_inj.mp heq, ?_, hrest⟩
  have hsome := congrArg Option.isSome hbinding
  rwa [Option.isSome_map, Option.isSome_map] at hsome

/-! ## Lists -/

section Lists

variable {α β : Type} {text : α → List Char} {key : α → β} {close c : Char} {blank rest rest' : List Char}

/-- Items, each with a separator before it. -/
def led (separator : List Char) (text : α → List Char) (items : List α) : List Char :=
  items.flatMap fun a => separator ++ text a

/-- Items with a separator between them. -/
def joined (separator : List Char) (text : α → List Char) : List α → List Char
  | [] => []
  | a :: more => text a ++ led separator text more

/-- What comes after a list: nothing, or what closes it. -/
def Closes (close : Char) (rest : List Char) : Prop := ∀ c ∈ rest.head?, c = close

theorem closes_cons : Closes close (close :: rest) := by
  intro c hc
  exact (Option.some.inj hc).symm

/-- The items can be told from each other. -/
def Apart (text : α → List Char) (key : α → β) (items items' : List α) : Prop :=
  ∀ a ∈ items, ∀ a' ∈ items', ∀ rest rest', Stops rest → Stops rest' →
    text a ++ rest = text a' ++ rest' → key a = key a' ∧ rest = rest'

theorem Closes.stops (h : Closes close rest) (hclose : close ∈ [' ', ')', ';', '\x7d']) : Stops rest := by
  intro c hc
  rw [h c hc]
  exact hclose

theorem stops_led {items : List α} (hstop : c ∈ [' ', ')', ';', '\x7d']) (hrest : Stops rest) :
    Stops (led (c :: blank) text items ++ rest) := by
  cases items with
  | nil => exact hrest
  | cons a items => exact stops_cons hstop

/-- A list with a separator before each item can be read back if its items can. -/
theorem led_unique {items items' : List α} (hitems : Apart text key items items') (hc : c ≠ close)
    (hstop : c ∈ [' ', ')', ';', '\x7d']) (hclose : close ∈ [' ', ')', ';', '\x7d'])
    (hrest : Closes close rest) (hrest' : Closes close rest')
    (h : led (c :: blank) text items ++ rest = led (c :: blank) text items' ++ rest') :
    items.map key = items'.map key ∧ rest = rest' := by
  induction items generalizing items' with
  | nil =>
    cases items' with
    | nil => exact ⟨rfl, h⟩
    | cons a' items' =>
      obtain rfl : rest = _ := h
      exact absurd (hrest c rfl) hc
  | cons a items ih =>
    cases items' with
    | nil =>
      obtain rfl : _ = rest' := h
      exact absurd (hrest' c rfl) hc
    | cons a' items' =>
      have h : text a ++ (led (c :: blank) text items ++ rest) =
          text a' ++ (led (c :: blank) text items' ++ rest') := by simpa [led] using h
      obtain ⟨hkey, h⟩ := hitems a (by simp) a' (by simp) _ _ (stops_led hstop (hrest.stops hclose))
        (stops_led hstop (hrest'.stops hclose)) h
      have hitems : Apart text key items items' := fun b hb b' hb' =>
        hitems b (List.mem_cons_of_mem a hb) b' (List.mem_cons_of_mem a' hb')
      obtain ⟨hkeys, hrest⟩ := ih hitems h
      exact ⟨by rw [List.map_cons, List.map_cons, hkey, hkeys], hrest⟩

/-- So can a list with separators between its items, if no item starts with what closes the list. -/
theorem joined_unique {items items' : List α} (hitems : Apart text key items items')
    (hstart : ∀ a ∈ items ++ items', ∃ d more, text a = d :: more ∧ d ≠ close) (hc : c ≠ close)
    (hstop : c ∈ [' ', ')', ';', '\x7d']) (hclose : close ∈ [' ', ')', ';', '\x7d'])
    (hrest : Closes close rest) (hrest' : Closes close rest')
    (h : joined (c :: blank) text items ++ rest = joined (c :: blank) text items' ++ rest') :
    items.map key = items'.map key ∧ rest = rest' := by
  cases items with
  | nil =>
    cases items' with
    | nil => exact ⟨rfl, h⟩
    | cons a' items' =>
      obtain ⟨d, more, hmore, hd⟩ := hstart a' (by simp)
      rw [joined, joined, hmore] at h
      obtain rfl : rest = _ := h
      exact absurd (hrest d rfl) hd
  | cons a items =>
    cases items' with
    | nil =>
      obtain ⟨d, more, hmore, hd⟩ := hstart a (by simp)
      rw [joined, joined, hmore] at h
      obtain rfl : _ = rest' := h
      exact absurd (hrest' d rfl) hd
    | cons a' items' =>
      -- with one more separator, both have one before each item
      have h : led (c :: blank) text (a :: items) ++ rest = led (c :: blank) text (a' :: items') ++ rest' := by
        simpa [joined, led] using h
      exact led_unique hitems hc hstop hclose hrest hrest' h

end Lists

theorem toList_outlineArgs (args : List Node) :
    (outlineArgs args).toList = led [' '] (fun node => node.outline.toList) args := by
  induction args with
  | nil => rfl
  | cons node more ih => simp [outlineArgs, led, ih]

theorem outlineElse_eq (no : Option Node) : outlineElse no = outlineArgs no.toList := by
  cases no with
  | none => rfl
  | some node => simp [outlineElse, outlineArgs]

theorem toList_outlineLines (nodes : List Node) :
    (outlineLines nodes).toList = joined [';', ' '] (fun node => node.outline.toList) nodes := by
  induction nodes with
  | nil => rfl
  | cons node more ih =>
    cases more with
    | nil => simp [outlineLines, joined, led]
    | cons next more =>
      rw [joined] at ih
      simp [outlineLines, joined, led, ih]

theorem toList_outlineParams (params : List Param) :
    (outlineParams params).toList = joined [' '] (fun param => param.outline.toList) params := by
  induction params with
  | nil => rfl
  | cons param more ih =>
    cases more with
    | nil => simp [outlineParams, joined, led]
    | cons next more =>
      rw [joined] at ih
      simp [outlineParams, joined, led, ih]

end SlotScript
