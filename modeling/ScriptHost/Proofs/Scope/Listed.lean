import ScriptHost.Proofs.Scope.Members
/-!
# Declarations as a list

What the items of a unit declare, as a list in the order of the text. Every name in it stands for a
number that follows from how much is declared in front of it. A unit is declared without an error if
and only if no name in the list comes twice and every class in it is well formed, and then its tables
hold just what is in the list: `Declarations.outcome_addItems`.
-/

set_option autoImplicit false

namespace ScriptHost

/-- One thing that is declared, under its qualified name. -/
inductive Declaration where
  | function (name : String) (arity : Nat)
  /-- A class with its fields, and its methods under their own names. -/
  | classOf (name : String) (fields : List String) (methods : List Signature)
  | global (name : String)

/-- What a class with a qualified name declares. -/
def ClassDecl.declaration (c : ClassDecl) (name : String) : Declaration :=
  .classOf name (c.fields.map (·.name))
    (c.methods.map fun method => ⟨method.name, method.params.length⟩)

mutual

/-- What an item in a namespace declares. -/
def Item.declarations (space : List String) : Item → List Declaration
  | .space path items _ => Item.declarationsAll (space ++ path) items
  | .classDecl c => [c.declaration (qualify space c.name)]
  | .function f => [.function (qualify space f.name) f.params.length]
  | .stmt (.letVar name _ _) => if space.isEmpty then [.global name] else []
  | .stmt _ => []

/-- What the items of a namespace declare. -/
def Item.declarationsAll (space : List String) : List Item → List Declaration
  | [] => []
  | item :: rest => item.declarations space ++ Item.declarationsAll space rest

end

theorem Item.declarationsAll_append (space : List String) (front rest : List Item) :
    Item.declarationsAll space (front ++ rest) =
      Item.declarationsAll space front ++ Item.declarationsAll space rest := by
  induction front with
  | nil => rfl
  | cons item front ih =>
    rw [List.cons_append, declarationsAll, declarationsAll, ih, List.append_assoc]

namespace Declaration

/-- The functions that a declaration brings in. -/
def signatures : Declaration → List Signature
  | .function name arity => [⟨name, arity⟩]
  | .classOf name _ methods =>
    ⟨name ++ ".<fields>", 0⟩ :: methods.map fun method => ⟨name ++ "." ++ method.name, method.arity⟩
  | .global _ => []

/-- The name under which a function is called. -/
def functionName? : Declaration → Option String
  | .function name _ => some name
  | _ => none

/-- The name of a class. -/
def className? : Declaration → Option String
  | .classOf name _ _ => some name
  | _ => none

/-- The name of a global variable. -/
def globalName? : Declaration → Option String
  | .global name => some name
  | _ => none

/-- The methods of a class under their names, where the first one has the number `next`. -/
def methodTable (next : Nat) (methods : List Signature) : Table Nat :=
  ⟨methods.mapIdx fun index method => (method.name, next + index)⟩

/-- A class, where the function that initialises its fields has the number `next`. -/
def madeClass (next : Nat) (name : String) (fields : List String) (methods : List Signature) :
    Class where
  name := name
  fields := fields
  methods := methodTable (next + 1) methods
  fieldInit := next
  constructor? := (methodTable (next + 1) methods).get? constructorName

/-- The classes that a declaration brings in, where its first function has the number `next`. -/
def classes (next : Nat) : Declaration → List Class
  | .classOf name fields methods => [madeClass next name fields methods]
  | _ => []

/-- The members of a class have different names. -/
def Sound : Declaration → Prop
  | .classOf _ fields methods =>
    (fields ++ methods.map (·.name)).Nodup
  | _ => True

/-- How many functions a declaration brings in. -/
def functionCount (d : Declaration) : Nat :=
  d.signatures.length

/-- How many classes a declaration brings in. -/
def classCount (d : Declaration) : Nat :=
  d.className?.toList.length

/-- The names in a list of declarations with their numbers, counted from `next`. -/
def numbers (name? : Declaration → Option String) (count : Declaration → Nat) (next : Nat) :
    List Declaration → List (String × Nat)
  | [] => []
  | d :: rest => (name? d).toList.map (·, next) ++ numbers name? count (next + count d) rest

/-- The classes in a list of declarations, where the first function has the number `next`. -/
def classesAll (next : Nat) : List Declaration → List Class
  | [] => []
  | d :: rest => d.classes next ++ classesAll (next + d.functionCount) rest

/-- How many there are of something in a list of declarations. -/
def total (count : Declaration → Nat) : List Declaration → Nat
  | [] => 0
  | d :: rest => count d + total count rest

variable {name? : Declaration → Option String} {count : Declaration → Nat}

theorem total_append (front rest : List Declaration) :
    total count (front ++ rest) = total count front + total count rest := by
  induction front with
  | nil => exact (Nat.zero_add _).symm
  | cons d front ih => rw [List.cons_append, total, total, ih, Nat.add_assoc]

theorem numbers_append (next : Nat) (front rest : List Declaration) :
    numbers name? count next (front ++ rest) =
      numbers name? count next front ++ numbers name? count (next + total count front) rest := by
  induction front generalizing next with
  | nil => rfl
  | cons d front ih =>
    rw [List.cons_append, numbers, numbers, ih, List.append_assoc, total, Nat.add_assoc]

theorem classesAll_append (next : Nat) (front rest : List Declaration) :
    classesAll next (front ++ rest) =
      classesAll next front ++ classesAll (next + total functionCount front) rest := by
  induction front generalizing next with
  | nil => rfl
  | cons d front ih =>
    rw [List.cons_append, classesAll, classesAll, ih, List.append_assoc, total, Nat.add_assoc]

/-- The names are those of the declarations. -/
theorem map_fst_numbers (next : Nat) (ds : List Declaration) :
    (numbers name? count next ds).map (·.1) = ds.filterMap name? := by
  induction ds generalizing next with
  | nil => rfl
  | cons d rest ih =>
    rw [numbers, List.map_append, ih]
    cases h : name? d with
    | none => rw [List.filterMap_cons_none h]; rfl
    | some name => rw [List.filterMap_cons_some h]; rfl

theorem length_signatures (ds : List Declaration) :
    (ds.flatMap signatures).length = total functionCount ds := by
  induction ds with
  | nil => rfl
  | cons d rest ih => rw [List.flatMap_cons, List.length_append, ih, total, functionCount]

theorem length_classes (next : Nat) (d : Declaration) : (d.classes next).length = d.classCount := by
  cases d <;> rfl

theorem length_classesAll (next : Nat) (ds : List Declaration) :
    (classesAll next ds).length = total classCount ds := by
  induction ds generalizing next with
  | nil => rfl
  | cons d rest ih => rw [classesAll, List.length_append, ih, length_classes, total]

/-- No name comes twice, and the classes are well formed. -/
structure Distinct (ds : List Declaration) : Prop where
  functions : (ds.filterMap functionName?).Nodup
  classes : (ds.filterMap className?).Nodup
  globals : (ds.filterMap globalName?).Nodup
  sound : ∀ d ∈ ds, d.Sound

/-- What comes first in a list without clashes has none. -/
theorem Distinct.front {front rest : List Declaration} (h : Distinct (front ++ rest)) :
    Distinct front where
  functions := (List.nodup_append.mp (List.filterMap_append ▸ h.functions)).1
  classes := (List.nodup_append.mp (List.filterMap_append ▸ h.classes)).1
  globals := (List.nodup_append.mp (List.filterMap_append ▸ h.globals)).1
  sound := fun d hd => h.sound d (List.mem_append_left rest hd)

theorem nodup_filterMap_concat (ds : List Declaration) (x : Declaration) :
    ((ds ++ [x]).filterMap name?).Nodup ↔
      (ds.filterMap name?).Nodup ∧ ∀ name ∈ name? x, name ∉ ds.filterMap name? := by
  rw [List.filterMap_append]
  cases h : name? x with
  | none => rw [List.filterMap_cons_none h]; simp
  | some name =>
    rw [List.filterMap_cons_some h, List.filterMap_nil, List.nodup_append_comm]
    simp [and_comm]

/-- One more declaration clashes with none before it if its names are new. -/
theorem distinct_concat {ds : List Declaration} {x : Declaration} :
    Distinct (ds ++ [x]) ↔ Distinct ds ∧
      (∀ name ∈ x.functionName?, name ∉ ds.filterMap functionName?) ∧
        (∀ name ∈ x.className?, name ∉ ds.filterMap className?) ∧
          (∀ name ∈ x.globalName?, name ∉ ds.filterMap globalName?) ∧ x.Sound := by
  constructor
  · intro h
    obtain ⟨-, hfunction⟩ := (nodup_filterMap_concat ds x).mp h.functions
    obtain ⟨-, hclass⟩ := (nodup_filterMap_concat ds x).mp h.classes
    obtain ⟨-, hglobal⟩ := (nodup_filterMap_concat ds x).mp h.globals
    exact ⟨h.front, hfunction, hclass, hglobal, h.sound x (by simp)⟩
  · rintro ⟨h, hfunction, hclass, hglobal, hsound⟩
    refine ⟨(nodup_filterMap_concat ds x).mpr ⟨h.functions, hfunction⟩,
      (nodup_filterMap_concat ds x).mpr ⟨h.classes, hclass⟩,
      (nodup_filterMap_concat ds x).mpr ⟨h.globals, hglobal⟩, fun d hd => ?_⟩
    obtain hd | hd := List.mem_append.mp hd
    · exact h.sound d hd
    · rwa [List.mem_singleton.mp hd]

/-- The order is nothing to whether names clash. -/
theorem Distinct.perm {ds other : List Declaration} (h : Distinct ds) (hperm : ds.Perm other) :
    Distinct other where
  functions := (hperm.filterMap functionName?).nodup h.functions
  classes := (hperm.filterMap className?).nodup h.classes
  globals := (hperm.filterMap globalName?).nodup h.globals
  sound := fun d hd => h.sound d (hperm.mem_iff.mpr hd)

end Declaration

namespace Declarations

open Declaration

/-! ## The members of a class -/

theorem foldl_addField_of_nodup (className : String) (fields : List FieldDecl)
    (names : List String) (d : Declarations) (h : (names ++ fields.map (·.name)).Nodup) :
    fields.foldl (addField className) (names, d) = (names ++ fields.map (·.name), d) := by
  induction fields generalizing names with
  | nil => simp
  | cons field rest ih =>
    have hfresh : ¬ names.contains field.name = true := fun hknown =>
      (List.nodup_append.mp h).2.2 _ (List.contains_iff_mem.mp hknown) _ List.mem_cons_self rfl
    rw [List.map_cons, List.append_cons] at h ⊢
    rw [List.foldl_cons, addField, if_neg hfresh]
    exact ih _ h

theorem foldl_addMethod_of_nodup (className : String) (fields : List String)
    (methods : List FunctionDecl) (table : Table Nat) (d : Declarations)
    (h : (table.names ++ methods.map (·.name)).Nodup)
    (hfields : ∀ method ∈ methods, method.name ∉ fields) :
    methods.foldl (addMethod className fields) (table, d) =
      (⟨table.entries ++ methods.mapIdx fun index method => (method.name, d.nextFunction + index)⟩,
        { d with functions := d.functions ++ (methodSignatures className methods).toArray }) := by
  induction methods generalizing table d with
  | nil => simp [methodSignatures]
  | cons method rest ih =>
    obtain ⟨hfield, hrest⟩ := List.forall_mem_cons.mp hfields
    have hname : method.name ∉ table.names := fun hknown =>
      (List.nodup_append.mp h).2.2 _ hknown _ List.mem_cons_self rfl
    have hfresh : ¬ (table.contains method.name || fields.contains method.name) = true := by
      rw [Bool.or_eq_true, Table.contains_iff, List.contains_iff_mem, not_or]
      exact ⟨hname, hfield⟩
    have hnames : (table.insert method.name d.nextFunction).names = table.names ++ [method.name] := by
      rw [Table.names, Table.entries_insert_of_not_mem hname, List.map_append]
      rfl
    rw [List.foldl_cons, addMethod, if_neg hfresh, ih _ _ (by rw [hnames]; simpa using h) hrest,
      Table.entries_insert_of_not_mem hname, nextFunction_pushFunction]
    simp [pushFunction, methodSignatures, List.mapIdx_cons, Nat.add_assoc, Nat.add_comm 1]

theorem failed_foldl_addMethod (className : String) (fields : List String)
    (methods : List FunctionDecl) (table : Table Nat) (d : Declarations)
    (htable : table.names.Nodup)
    (h : ¬ Failed (methods.foldl (addMethod className fields) (table, d)).2.diagnostics) :
    (table.names ++ methods.map (·.name)).Nodup ∧ ∀ method ∈ methods, method.name ∉ fields := by
  induction methods generalizing table d with
  | nil => exact ⟨by simpa using htable, by simp⟩
  | cons method rest ih =>
    rw [List.foldl_cons, addMethod] at h
    dsimp only at h
    split at h
    · exact absurd ((foldl_addMethod className fields rest _ _).failed (failed_push rfl)) h
    · rename_i hfresh
      rw [Bool.or_eq_true, Table.contains_iff, List.contains_iff_mem, not_or] at hfresh
      have hnames : (table.insert method.name d.nextFunction).names =
          table.names ++ [method.name] := by
        rw [Table.names, Table.entries_insert_of_not_mem hfresh.1, List.map_append]
        rfl
      have hinserted : (table.insert method.name d.nextFunction).names.Nodup :=
        Table.Distinct.insert htable _ _
      obtain ⟨hnodup, hrest⟩ := ih _ _ hinserted h
      rw [hnames] at hnodup
      exact ⟨by simpa using hnodup, List.forall_mem_cons.mpr ⟨hfresh.2, hrest⟩⟩

/-! ## Whole texts -/

/-- The tables hold what is in a list of declarations. -/
structure Tabulates (program : Program) (ds : List Declaration) (d : Declarations) : Prop where
  functionBase : d.functionBase = program.functions.size
  classBase : d.classBase = program.classes.size
  functions : d.functions.toList = ds.flatMap signatures
  classes : d.classes.toList = classesAll d.functionBase ds
  functionNames : d.functionNames.entries = numbers functionName? functionCount d.functionBase ds
  classNames : d.classNames.entries = numbers className? classCount d.classBase ds
  globals : d.globals.names = ds.filterMap globalName?

/-- Declarations have been added as they are listed, or names clash and there is an error. -/
def Outcome (program : Program) (ds : List Declaration) (d : Declarations) : Prop :=
  (Distinct ds ∧ Tabulates program ds d ∧ ¬ Failed d.diagnostics) ∨
    (¬ Distinct ds ∧ Failed d.diagnostics)

variable {program : Program} {ds : List Declaration} {d : Declarations}

theorem outcome_start (program : Program) : Outcome program [] (start program) :=
  .inl ⟨⟨.nil, .nil, .nil, by simp⟩, ⟨rfl, rfl, rfl, rfl, rfl, rfl, rfl⟩, by simp [Failed, start]⟩

/-- The number of the next function follows from what is listed. -/
theorem Tabulates.nextFunction (h : Tabulates program ds d) :
    d.nextFunction = d.functionBase + total functionCount ds := by
  rw [Declarations.nextFunction, ← Array.length_toList, h.functions, length_signatures]

theorem Tabulates.classCount (h : Tabulates program ds d) : d.classes.size = total classCount ds := by
  rw [← Array.length_toList, h.classes, length_classesAll]

/-- A declaration behind others, where `later` is what is declared then. -/
theorem Outcome.snoc (h : Outcome program ds d) {later : Declarations} (x : Declaration)
    (hfailed : Failed d.diagnostics → Failed later.diagnostics)
    (hgood : Distinct ds → Tabulates program ds d → ¬ Failed d.diagnostics →
      Outcome program (ds ++ [x]) later) : Outcome program (ds ++ [x]) later := by
  obtain ⟨hdistinct, htables, hclean⟩ | ⟨hclash, hbad⟩ := h
  · exact hgood hdistinct htables hclean
  · exact .inr ⟨fun hdistinct => hclash hdistinct.front, hfailed hbad⟩

theorem Outcome.addFunction (h : Outcome program ds d) (space : List String) (f : FunctionDecl) :
    Outcome program (ds ++ [.function (qualify space f.name) f.params.length])
      (d.addFunction space f) := by
  generalize hname : qualify space f.name = name
  refine h.snoc _ (fun hbad => ?_) fun hdistinct htables hclean => ?_
  · unfold Declarations.addFunction
    dsimp only
    split
    · exact hbad.push _
    · exact hbad
  · have hnames : d.functionNames.names = ds.filterMap functionName? := by
      rw [Table.names, htables.functionNames, map_fst_numbers]
    unfold Declarations.addFunction
    rw [hname]
    dsimp only
    split
    · rename_i hknown
      rw [Table.contains_iff, pushFunction, hnames] at hknown
      exact .inr ⟨fun hall => (distinct_concat.mp hall).2.1 name rfl hknown, failed_push rfl⟩
    · rename_i hfresh
      rw [Table.contains_iff, pushFunction] at hfresh
      have hdistinct' : Distinct (ds ++ [.function name f.params.length]) := by
        refine distinct_concat.mpr ⟨hdistinct, ?_, by rintro _ ⟨⟩, by rintro _ ⟨⟩, trivial⟩
        rintro _ ⟨⟩
        rwa [← hnames]
      refine .inl ⟨hdistinct',
        ⟨htables.functionBase, htables.classBase, ?_, ?_, ?_, ?_, ?_⟩, hclean⟩
      · simp [pushFunction, htables.functions, signatures]
      · rw [classesAll_append]
        simp [pushFunction, htables.classes, classesAll, Declaration.classes]
      · rw [numbers_append]
        dsimp only [pushFunction]
        rw [Table.entries_insert_of_not_mem hfresh, htables.functionNames, htables.nextFunction]
        simp [numbers, functionName?]
      · rw [numbers_append]
        simp [pushFunction, htables.classNames, numbers, className?]
      · rw [List.filterMap_append]
        simp [pushFunction, htables.globals, globalName?]

theorem Outcome.addGlobal (h : Outcome program ds d) (name : String) (span : Span) :
    Outcome program (ds ++ [.global name]) (d.addGlobal program name span) := by
  obtain ⟨hfunctionBase, hclassBase, hfunctions, hclasses, hfunctionNames, hclassNames, hfailed⟩ :=
    d.addGlobal_frame program name span
  refine h.snoc _ hfailed fun hdistinct htables hclean => ?_
  by_cases hknown : d.globals.contains name = true
  · have hreported : d.addGlobal program name span = d.report (.globalRedeclared name) span :=
      if_pos hknown
    rw [Table.contains_iff, htables.globals] at hknown
    rw [hreported]
    exact .inr ⟨fun hall => (distinct_concat.mp hall).2.2.2.1 name rfl hknown, failed_push rfl⟩
  · have hfresh := hknown
    rw [Table.contains_iff] at hfresh
    have hinsert (id : Nat) : (d.globals.insert name id).names =
        (ds ++ [Declaration.global name]).filterMap globalName? := by
      rw [Table.names, Table.entries_insert_of_not_mem hfresh, List.map_append,
        List.filterMap_append, ← htables.globals]
      rfl
    have hadded : (d.addGlobal program name span).globals.names =
          (ds ++ [Declaration.global name]).filterMap globalName? ∧
        (d.addGlobal program name span).diagnostics = d.diagnostics := by
      unfold Declarations.addGlobal
      rw [if_neg hknown]
      split <;> exact ⟨hinsert _, rfl⟩
    refine .inl ⟨distinct_concat.mpr ⟨hdistinct, by rintro _ ⟨⟩, by rintro _ ⟨⟩, ?_, trivial⟩,
      ⟨?_, ?_, ?_, ?_, ?_, ?_, hadded.1⟩, hadded.2 ▸ hclean⟩
    · rintro _ ⟨⟩
      rwa [← htables.globals]
    · rw [hfunctionBase, htables.functionBase]
    · rw [hclassBase, htables.classBase]
    · rw [hfunctions, htables.functions]
      simp [signatures]
    · rw [hclasses, hfunctionBase, htables.classes, classesAll_append]
      simp [classesAll, Declaration.classes]
    · rw [hfunctionNames, hfunctionBase, htables.functionNames, numbers_append]
      simp [numbers, functionName?]
    · rw [hclassNames, hclassBase, htables.classNames, numbers_append]
      simp [numbers, className?]

theorem sound_declaration {c : ClassDecl} {name : String} :
    (c.declaration name).Sound ↔ (c.fields.map (·.name)).Nodup ∧ (c.methods.map (·.name)).Nodup ∧
      ∀ method ∈ c.methods, method.name ∉ c.fields.map (·.name) := by
  have hnames : (c.methods.map fun method => (⟨method.name, method.params.length⟩ : Signature)).map
      (·.name) = c.methods.map (·.name) := by
    rw [List.map_map]
    rfl
  rw [ClassDecl.declaration, Declaration.Sound, hnames, List.nodup_append]
  refine and_congr_right fun _ => and_congr_right fun _ => ⟨fun h method hmethod hfield => ?_,
    fun h field hfield other hother hsame => ?_⟩
  · exact h _ hfield _ (List.mem_map_of_mem hmethod) rfl
  · obtain ⟨method, hmethod, rfl⟩ := List.mem_map.mp hother
    exact h method hmethod (hsame ▸ hfield)

/-- A class whose members have different names is made as it is listed. -/
theorem addClass_of_nodup (d : Declarations) (space : List String) (c : ClassDecl) {name : String}
    (hqualified : qualify space c.name = name) (hsound : (c.declaration name).Sound)
    (hfresh : name ∉ d.classNames.names) :
    d.addClass space c =
      { d with
        functions := d.functions ++ (c.declaration name).signatures.toArray
        classes := d.classes ++ ((c.declaration name).classes d.nextFunction).toArray
        classNames := d.classNames.insert name (d.classBase + d.classes.size) } := by
  obtain ⟨hfields, hmethods, hapart⟩ := sound_declaration.mp hsound
  have hadded : (d.pushFunction (name ++ ".<fields>") 0).addFields name c.fields =
      (c.fields.map (·.name), d.pushFunction (name ++ ".<fields>") 0) :=
    foldl_addField_of_nodup name c.fields [] _ hfields
  have hmade : (d.pushFunction (name ++ ".<fields>") 0).addMethods name (c.fields.map (·.name))
      c.methods = (methodTable (d.nextFunction + 1)
        (c.methods.map fun method => ⟨method.name, method.params.length⟩),
        { d with functions := d.functions ++ (c.declaration name).signatures.toArray }) := by
    refine (foldl_addMethod_of_nodup name _ c.methods {} _ hmethods hapart).trans ?_
    rw [nextFunction_pushFunction]
    simp [methodTable, pushFunction, methodSignatures, ClassDecl.declaration, signatures,
      List.mapIdx_eq_zipIdx_map, List.zipIdx_map, Function.comp_def]
  have hunknown : ¬ d.classNames.contains name = true := by rwa [Table.contains_iff]
  unfold Declarations.addClass
  rw [hqualified]
  dsimp only
  rw [hadded]
  dsimp only
  rw [hmade]
  dsimp only
  rw [if_neg hunknown, Array.push_eq_append]
  rfl

/-- A class that is declared without an error has a new name, and its members have different
names. -/
theorem sound_of_addClass (d : Declarations) (space : List String) (c : ClassDecl)
    (h : ¬ Failed (d.addClass space c).diagnostics) :
    (c.declaration (qualify space c.name)).Sound ∧
      qualify space c.name ∉ d.classNames.names := by
  unfold Declarations.addClass at h
  dsimp only at h
  generalize qualify space c.name = name at h ⊢
  have hfields := (d.pushFunction (name ++ ".<fields>") 0).addFields_spec name c.fields
  generalize (d.pushFunction (name ++ ".<fields>") 0).addFields name c.fields = found at h hfields
  obtain ⟨fields, fielded⟩ := found
  have hmethods := fielded.addMethods_spec name fields c.methods
  have hapart := failed_foldl_addMethod name fields c.methods {} fielded List.nodup_nil
  change ¬ Failed (fielded.addMethods name fields c.methods).2.diagnostics → _ at hapart
  generalize fielded.addMethods name fields c.methods = found at h hmethods hapart
  obtain ⟨methods, methoded⟩ := found
  have hlater : methoded.classNames = d.classNames := by
    rw [show methoded = _ from hmethods.later, show fielded = _ from hfields.later]
    rfl
  dsimp only at h hapart
  split at h
  · exact absurd (failed_push rfl) h
  · rename_i hfresh
    obtain ⟨hnames, hapart⟩ := hapart h
    have hcomplete : fields = c.fields.map (·.name) :=
      hfields.complete fun hbad => h (hmethods.failed hbad)
    have hdistinct : fields.Nodup := hfields.distinct .nil
    rw [hcomplete] at hapart hdistinct
    rw [Table.contains_iff, hlater] at hfresh
    exact ⟨sound_declaration.mpr ⟨hdistinct, hnames, hapart⟩, hfresh⟩

theorem Outcome.addClass (h : Outcome program ds d) (space : List String) (c : ClassDecl) :
    Outcome program (ds ++ [c.declaration (qualify space c.name)]) (d.addClass space c) := by
  obtain ⟨_, hadds⟩ := d.addClass_adds space c
  refine h.snoc _ hadds.failed fun hdistinct htables hclean => ?_
  have hnames : d.classNames.names = ds.filterMap className? := by
    rw [Table.names, htables.classNames, map_fst_numbers]
  by_cases hall : Distinct (ds ++ [c.declaration (qualify space c.name)])
  · obtain ⟨-, -, hfresh, -, hsound⟩ := distinct_concat.mp hall
    have hname : qualify space c.name ∉ d.classNames.names := by
      rw [hnames]
      exact hfresh _ rfl
    rw [addClass_of_nodup d space c rfl hsound hname]
    refine .inl ⟨hall, ⟨htables.functionBase, htables.classBase, ?_, ?_, ?_, ?_, ?_⟩, hclean⟩
    · simp [htables.functions]
    · rw [classesAll_append]
      simp [htables.classes, htables.nextFunction, classesAll]
    · rw [numbers_append]
      simp [htables.functionNames, numbers, ClassDecl.declaration, functionName?]
    · rw [numbers_append]
      dsimp only
      rw [Table.entries_insert_of_not_mem hname, htables.classNames, htables.classCount]
      simp [numbers, ClassDecl.declaration, className?]
    · rw [List.filterMap_append]
      simp [htables.globals, ClassDecl.declaration, globalName?]
  · refine .inr ⟨hall, Classical.not_not.mp fun hgood => hall ?_⟩
    obtain ⟨hsound, hfresh⟩ := sound_of_addClass d space c hgood
    refine distinct_concat.mpr ⟨hdistinct, by rintro _ ⟨⟩, ?_, by rintro _ ⟨⟩, hsound⟩
    rintro _ ⟨⟩
    rwa [← hnames]

mutual

theorem Outcome.addItem : ∀ (item : Item) (space : List String) {ds : List Declaration}
    {d : Declarations}, Outcome program ds d →
      Outcome program (ds ++ item.declarations space) (Declarations.addItem program space d item)
  | .space path items _, space, _, _, h => by
    rw [Declarations.addItem, Item.declarations]
    exact Outcome.addItems items (space ++ path) h
  | .classDecl c, space, _, _, h => by
    rw [Declarations.addItem, Item.declarations]
    exact h.addClass space c
  | .function f, space, _, _, h => by
    rw [Declarations.addItem, Item.declarations]
    exact h.addFunction space f
  | .stmt s, space, ds, _, h => by
    cases s with
    | letVar name value span =>
      rw [Declarations.addItem, Item.declarations]
      split
      · exact h.addGlobal name span
      · rwa [List.append_nil]
    | _ => exact (List.append_nil ds).symm ▸ h

/-- Items are declared as they are listed, or names clash and there is an error. -/
theorem Outcome.addItems : ∀ (items : List Item) (space : List String) {ds : List Declaration}
    {d : Declarations}, Outcome program ds d →
      Outcome program (ds ++ Item.declarationsAll space items)
        (Declarations.addItems program space d items)
  | [], _, _, _, h => by
    rwa [Declarations.addItems, Item.declarationsAll, List.append_nil]
  | item :: rest, space, _, _, h => by
    rw [Declarations.addItems, Item.declarationsAll, ← List.append_assoc]
    exact Outcome.addItems rest space (Outcome.addItem item space h)

end

/-- What the items of a unit declare is what is listed, or names clash and there is an error. -/
theorem outcome_addItems (program : Program) (items : List Item) :
    Outcome program (Item.declarationsAll [] items) (addItems program [] (start program) items) :=
  (outcome_start program).addItems items []

end Declarations

end ScriptHost
