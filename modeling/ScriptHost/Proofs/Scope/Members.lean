import ScriptHost.Proofs.Program.Closed
import ScriptHost.Proofs.Scope.Bodies
/-!
# Which functions of a unit are members

The functions that a unit declares are those of its bodies, in the same order. As long as there is
no error, a body that is written in a class is that of a member of the class and of no other, and
the class has the fields that are written, in the same order.

The main statement is `Declarations.lists_ofTexts`.
-/

set_option autoImplicit false

namespace ScriptHost

/-- A number, counted from `base`, is that of a body in a class with this place, or in none. -/
def WrittenAt (written : List Written) (base : Nat) (member : Option Nat) (id : Nat) : Prop :=
  ∃ place w, id = base + place ∧ written[place]? = some w ∧ w.member = member

theorem WrittenAt.unique {written : List Written} {base id : Nat} {member other : Option Nat}
    (h : WrittenAt written base member id) (h' : WrittenAt written base other id) :
    member = other := by
  obtain ⟨place, w, rfl, hw, rfl⟩ := h
  obtain ⟨place', w', hplace, hw', rfl⟩ := h'
  obtain rfl : place = place' := Nat.add_left_cancel hplace
  rw [Option.some.inj (hw.symm.trans hw')]

theorem WrittenAt.append {written : List Written} {base id : Nat} {member : Option Nat}
    (h : WrittenAt written base member id) (more : List Written) :
    WrittenAt (written ++ more) base member id := by
  obtain ⟨place, w, hplace, hw, hmember⟩ := h
  refine ⟨place, w, hplace, ?_, hmember⟩
  rw [List.getElem?_append_left (List.getElem?_eq_some_iff.mp hw).1]
  exact hw

theorem writtenAt_append {written more : List Written} {base place : Nat} {w : Written}
    (h : more[place]? = some w) :
    WrittenAt (written ++ more) base w.member (base + written.length + place) := by
  refine ⟨written.length + place, w, Nat.add_assoc .., ?_, rfl⟩
  rw [List.getElem?_append_right (Nat.le_add_right ..), Nat.add_sub_cancel_left]
  exact h

/-- All bodies in a class belong to it. -/
theorem ClassDecl.member_of_written {c : ClassDecl} {place : Nat} {w : Written}
    (h : w ∈ c.written place) : w.member = some place := by
  rw [ClassDecl.written, List.mem_cons, List.mem_map] at h
  obtain rfl | ⟨method, -, rfl⟩ := h
  · rfl
  · rfl

mutual

/-- A body belongs to no class, or it stands in the class that it belongs to. -/
theorem Item.class_of_written : ∀ (item : Item) {before : Nat} {w : Written},
    w ∈ item.written before → (∃ body, w = ⟨none, .body body⟩) ∨
      ∃ (place : Nat) (decl : ClassDecl), item.classes[place]? = some decl ∧
        w ∈ decl.written (before + place)
  | .space _ items _, _, _, hw => by
    rw [Item.written] at hw
    rw [Item.classes]
    exact Item.class_of_writtenAll items hw
  | .classDecl c, _, _, hw => by
    rw [Item.written] at hw
    refine .inr ⟨0, c, ?_, hw⟩
    rw [Item.classes]
    rfl
  | .function f, _, _, hw => by
    rw [Item.written, List.mem_singleton] at hw
    exact .inl ⟨f.body, hw⟩
  | .stmt s, _, _, hw => by
    rw [Item.written] at hw
    cases hw

/-- The same for several items. -/
theorem Item.class_of_writtenAll : ∀ (items : List Item) {before : Nat} {w : Written},
    w ∈ Item.writtenAll before items → (∃ body, w = ⟨none, .body body⟩) ∨
      ∃ (place : Nat) (decl : ClassDecl), (Item.classesAll items)[place]? = some decl ∧
        w ∈ decl.written (before + place)
  | [], _, _, hw => by
    rw [Item.writtenAll] at hw
    cases hw
  | item :: rest, _, _, hw => by
    rw [Item.writtenAll, List.mem_append] at hw
    rw [Item.classesAll]
    obtain hw | hw := hw
    · refine (Item.class_of_written item hw).imp_right fun ⟨place, decl, hdecl, hstands⟩ => ?_
      refine ⟨place, decl, ?_, hstands⟩
      rw [List.getElem?_append_left (List.getElem?_eq_some_iff.mp hdecl).1]
      exact hdecl
    · refine (Item.class_of_writtenAll rest hw).imp_right fun ⟨place, decl, hdecl, hstands⟩ => ?_
      rw [Nat.add_assoc] at hstands
      refine ⟨item.classes.length + place, decl, ?_, hstands⟩
      rw [List.getElem?_append_right (Nat.le_add_right ..), Nat.add_sub_cancel_left]
      exact hdecl

end

namespace Declarations

/-- The declarations of these classes and bodies. -/
structure Lists (decls : List ClassDecl) (written : List Written) (d : Declarations) : Prop where
  functionCount : d.functions.size = written.length
  classCount : d.classes.size = decls.length
  /-- A member of a class has its body there. -/
  members : ∀ (index : Nat) (c : Class) (id : Nat), d.classes[index]? = some c → c.Member id →
    WrittenAt written d.functionBase (some index) id
  /-- A function that is called by its name has its body in no class. -/
  free : ∀ (name : String) (id : Nat), d.functionNames.get? name = some id →
    WrittenAt written d.functionBase none id
  distinct : ∀ (index : Nat) (c : Class), d.classes[index]? = some c → c.fields.Nodup
  fields : ¬ Failed d.diagnostics → ∀ (index : Nat) (c : Class) (decl : ClassDecl),
    d.classes[index]? = some c → decls[index]? = some decl → c.fields = decl.fields.map (·.name)
  /-- A body in a class is that of a member. -/
  owned : ¬ Failed d.diagnostics → ∀ (place : Nat) (w : Written) (index : Nat),
    written[place]? = some w → w.member = some index →
      ∃ c, d.classes[index]? = some c ∧ c.Member (d.functionBase + place)

theorem lists_start (program : Program) : (start program).Lists [] [] where
  functionCount := rfl
  classCount := rfl
  members := fun _ _ _ h => by cases h
  free := fun _ _ h => by cases h
  distinct := fun _ _ h => by cases h
  fields := fun _ _ _ _ h => by cases h
  owned := fun _ _ _ _ h => by simp at h

variable {decls : List ClassDecl} {written : List Written} {d : Declarations}

/-- The number of the next function is that of the next body. -/
theorem Lists.nextFunction (h : d.Lists decls written) :
    d.nextFunction = d.functionBase + written.length := by
  rw [Declarations.nextFunction, h.functionCount]

theorem Lists.addFunction (h : d.Lists decls written) (space : List String) (f : FunctionDecl) :
    (d.addFunction space f).Lists decls (written ++ [⟨none, .body f.body⟩]) := by
  generalize hbody : [(⟨none, .body f.body⟩ : Written)] = body
  have hfirst : body[0]? = some ⟨none, .body f.body⟩ := by rw [← hbody]; rfl
  have hcount : d.functions.size + 1 = (written ++ body).length := by
    rw [h.functionCount, List.length_append, ← hbody]
    rfl
  have hmembers : ∀ index c id, d.classes[index]? = some c → c.Member id →
      WrittenAt (written ++ body) d.functionBase (some index) id :=
    fun index c id hc hid => (h.members index c id hc hid).append body
  unfold Declarations.addFunction
  dsimp only
  split
  · exact ⟨(Array.size_push ..).trans hcount, h.classCount, hmembers,
      fun name id hid => (h.free name id hid).append _, h.distinct,
      fun hgood => absurd (failed_push rfl) hgood, fun hgood => absurd (failed_push rfl) hgood⟩
  · refine ⟨(Array.size_push ..).trans hcount, h.classCount, hmembers, fun name id hid => ?_,
      h.distinct, h.fields, fun hgood place w index hw hmember => ?_⟩
    · rw [Table.get?_insert] at hid
      split at hid
      · rw [← Option.some.inj hid, h.nextFunction]
        exact writtenAt_append hfirst
      · exact (h.free name id hid).append _
    · rw [List.getElem?_append] at hw
      split at hw
      · exact h.owned hgood place w index hw hmember
      · have hmem := List.mem_of_getElem? hw
        rw [← hbody, List.mem_singleton] at hmem
        rw [hmem] at hmember
        cases hmember

/-- A number that a new class gives its initialisation or a method is that of the body there. -/
theorem AddsClass.writtenAt {later : Declarations} {name : String} {decl : ClassDecl} {made : Class}
    (adds : AddsClass d later name decl made) (h : d.Lists decls written) {id : Nat}
    (hid : made.Member id) :
    WrittenAt (written ++ decl.written decls.length) later.functionBase (some decls.length) id := by
  obtain rfl | ⟨name, hname⟩ := hid
  · rw [adds.fieldInit, h.nextFunction, adds.functionBase]
    have hfirst :
        (decl.written decls.length)[0]? = some ⟨some decls.length, .fields decl.fields⟩ := rfl
    exact writtenAt_append hfirst
  · obtain ⟨index, hindex, rfl⟩ := adds.methodIds name id hname
    rw [h.nextFunction, adds.functionBase, Nat.add_right_comm _ 1, Nat.add_assoc _ index]
    have hmethod : (decl.written decls.length)[index + 1]? =
        some ⟨some decls.length, .body decl.methods[index].body⟩ := by
      simp [ClassDecl.written, hindex]
    exact writtenAt_append hmethod

/-- Where there is no error, each body in a new class is that of a member. -/
theorem AddsClass.member {later : Declarations} {name : String} {decl : ClassDecl} {made : Class}
    (adds : AddsClass d later name decl made) (hgood : ¬ Failed later.diagnostics)
    {place offset : Nat} {w : Written} (hw : (decl.written place)[offset]? = some w) :
    made.Member (d.nextFunction + offset) := by
  cases offset with
  | zero => exact .inl adds.fieldInit
  | succ offset =>
    rw [ClassDecl.written, List.getElem?_cons_succ, List.getElem?_map] at hw
    obtain ⟨method, hmethod, -⟩ := Option.map_eq_some_iff.mp hw
    refine .inr ⟨method.name, ?_⟩
    rw [adds.methods hgood offset method hmethod, Nat.add_assoc, Nat.add_comm 1]

theorem Lists.addClass (h : d.Lists decls written) (space : List String) (decl : ClassDecl) :
    (d.addClass space decl).Lists (decls ++ [decl]) (written ++ decl.written decls.length) := by
  obtain ⟨made, adds⟩ := d.addClass_adds space decl
  generalize d.addClass space decl = later at adds
  have hlength : (decl.written decls.length).length = decl.methods.length + 1 := by
    simp [ClassDecl.written]
  have hbefore : ¬ Failed later.diagnostics → ¬ Failed d.diagnostics :=
    fun hgood hfailed => hgood (adds.failed hfailed)
  refine ⟨?_, ?_, fun index c id hc hid => ?_, fun name id hid => ?_, fun index c hc => ?_,
    fun hgood index c decl' hc hdecl => ?_, fun hgood place w index hw hmember => ?_⟩
  · rw [adds.functions, Array.size_append, h.functionCount, List.length_append, hlength]
    simp [methodSignatures]
  · rw [adds.classes, Array.size_push, h.classCount, List.length_append]
    rfl
  · rw [adds.classes, Array.getElem?_push] at hc
    split at hc
    · rename_i hlast
      rw [hlast, h.classCount]
      exact adds.writtenAt h (Option.some.inj hc ▸ hid)
    · rw [adds.functionBase]
      exact (h.members index c id hc hid).append _
  · rw [adds.functionNames] at hid
    rw [adds.functionBase]
    exact (h.free name id hid).append _
  · rw [adds.classes, Array.getElem?_push] at hc
    split at hc
    · exact Option.some.inj hc ▸ adds.distinct
    · exact h.distinct index c hc
  · rw [adds.classes, Array.getElem?_push] at hc
    split at hc
    · rename_i hlast
      rw [hlast, h.classCount, List.getElem?_concat_length] at hdecl
      rw [← Option.some.inj hc, ← Option.some.inj hdecl]
      exact adds.fields hgood
    · rename_i hother
      rw [List.getElem?_append_left] at hdecl
      · exact h.fields (hbefore hgood) index c decl' hc hdecl
      · rw [← h.classCount]
        exact (Array.getElem?_eq_some_iff.mp hc).1
  · rw [adds.functionBase, adds.classes]
    rw [List.getElem?_append] at hw
    split at hw
    · obtain ⟨c, hc, hid⟩ := h.owned (hbefore hgood) place w index hw hmember
      refine ⟨c, ?_, hid⟩
      rw [Array.getElem?_push_lt (Array.getElem?_eq_some_iff.mp hc).1]
      exact congrArg some (Array.getElem?_eq_some_iff.mp hc).2
    · rename_i hpast
      obtain ⟨offset, rfl⟩ := Nat.exists_eq_add_of_le (Nat.le_of_not_lt hpast)
      rw [Nat.add_sub_cancel_left] at hw
      have hindex : index = decls.length := by
        have hplace := ClassDecl.member_of_written (List.mem_of_getElem? hw)
        exact Option.some.inj (hmember.symm.trans hplace)
      refine ⟨made, by rw [hindex, ← h.classCount, Array.getElem?_push_size], ?_⟩
      rw [← Nat.add_assoc, ← h.nextFunction]
      exact adds.member hgood hw

theorem Lists.addGlobal (h : d.Lists decls written) (program : Program) (name : String)
    (span : Span) : (d.addGlobal program name span).Lists decls written := by
  obtain ⟨hbase, -, hfunctions, hclasses, hnames, -, hfailed⟩ :=
    d.addGlobal_frame program name span
  have hbefore : ¬ Failed (d.addGlobal program name span).diagnostics → ¬ Failed d.diagnostics :=
    fun hgood hold => hgood (hfailed hold)
  refine ⟨?_, ?_, ?_, ?_, ?_, fun hgood => ?_, fun hgood => ?_⟩
  · rw [hfunctions, h.functionCount]
  · rw [hclasses, h.classCount]
  · rw [hclasses, hbase]
    exact h.members
  · rw [hnames, hbase]
    exact h.free
  · rw [hclasses]
    exact h.distinct
  · rw [hclasses]
    exact h.fields (hbefore hgood)
  · rw [hclasses, hbase]
    exact h.owned (hbefore hgood)

mutual

/-- An item declares its classes and bodies. -/
theorem Lists.addItem {program : Program} : ∀ (item : Item) (space : List String)
    {decls : List ClassDecl} {written : List Written} {d : Declarations}, d.Lists decls written →
      (Declarations.addItem program space d item).Lists (decls ++ item.classes)
        (written ++ item.written decls.length)
  | .space path items _, space, _, _, d, h => by
    rw [Declarations.addItem, Item.classes, Item.written]
    exact Lists.addItems items (space ++ path) h
  | .classDecl c, space, _, _, d, h => by
    rw [Declarations.addItem]
    exact h.addClass space c
  | .function f, space, _, _, d, h => by
    rw [Declarations.addItem, Item.classes, List.append_nil]
    exact h.addFunction space f
  | .stmt (.letVar name _ span), space, _, _, d, h => by
    rw [Declarations.addItem, Item.classes, Item.written, List.append_nil, List.append_nil]
    split
    · exact h.addGlobal program name span
    · exact h
  | .stmt (.assign ..), _, _, _, _, h | .stmt (.ifThen ..), _, _, _, _, h
  | .stmt (.ifElse ..), _, _, _, _, h | .stmt (.loop ..), _, _, _, _, h
  | .stmt (.ret ..), _, _, _, _, h | .stmt (.block ..), _, _, _, _, h
  | .stmt (.expr _), _, _, _, _, h => by
    rw [Declarations.addItem, Item.classes, Item.written, List.append_nil, List.append_nil]
    · exact h
    · nofun

/-- Several items declare their classes and bodies. -/
theorem Lists.addItems {program : Program} : ∀ (items : List Item) (space : List String)
    {decls : List ClassDecl} {written : List Written} {d : Declarations}, d.Lists decls written →
      (Declarations.addItems program space d items).Lists (decls ++ Item.classesAll items)
        (written ++ Item.writtenAll decls.length items)
  | [], _, _, _, _, h => by
    rw [Declarations.addItems, Item.classesAll, Item.writtenAll, List.append_nil, List.append_nil]
    exact h
  | item :: rest, space, decls, _, d, h => by
    have hfirst : (Declarations.addItem program space d item).Lists _ _ :=
      Lists.addItem item space h
    have hrest : (Declarations.addItems program space _ rest).Lists _ _ :=
      Lists.addItems rest space hfirst
    rw [Declarations.addItems, Item.classesAll, Item.writtenAll, ← List.append_assoc,
      ← List.append_assoc]
    rwa [List.length_append] at hrest

end

theorem addItems_append (program : Program) (space : List String) (front rest : List Item)
    (d : Declarations) :
    addItems program space d (front ++ rest) =
      addItems program space (addItems program space d front) rest := by
  induction front generalizing d with
  | nil => rw [List.nil_append, addItems]
  | cons item front ih => rw [List.cons_append, addItems, addItems, ih]

/-- What source texts declare is what their items declare. -/
theorem foldl_addItems (program : Program) (texts : List (List Item)) (d : Declarations) :
    texts.foldl (fun d items => addItems program [] d items) d =
      addItems program [] d texts.flatten := by
  induction texts generalizing d with
  | nil => rw [List.foldl_nil, List.flatten_nil, addItems]
  | cons items rest ih => rw [List.foldl_cons, ih, List.flatten_cons, addItems_append]

/-- What source texts declare are their classes and bodies. -/
theorem lists_ofTexts (program : Program) (texts : List (List Item)) :
    (ofTexts program texts).Lists (Item.classesAll texts.flatten)
      (Item.writtenAll 0 texts.flatten) := by
  rw [ofTexts, foldl_addItems]
  exact Lists.addItems texts.flatten [] (lists_start program)

end Declarations

end ScriptHost
