import ScriptHost.Proofs.Table
import ScriptHost.Scope.Declarations
/-!
# What the numbers of declarations stand for

Functions, classes and global variables that a unit declares are numbered from where the tables of
the program end, without a gap. Every number that a name leads to has been given out, and every
class refers to functions of the unit. Where no error is reported, every class is under its name.
-/

set_option autoImplicit false

namespace ScriptHost

/-- There is an error among diagnostics. -/
def Failed (diagnostics : Array Diagnostic) : Prop :=
  ∃ d ∈ diagnostics, d.isError = true

/-- An error stays when more is said. -/
theorem Failed.push {diagnostics : Array Diagnostic} (h : Failed diagnostics) (d : Diagnostic) :
    Failed (diagnostics.push d) := by
  obtain ⟨e, he, herror⟩ := h
  exact ⟨e, Array.mem_push_of_mem d he, herror⟩

/-- An error that is added is there. -/
theorem failed_push {diagnostics : Array Diagnostic} {d : Diagnostic} (h : d.isError = true) :
    Failed (diagnostics.push d) :=
  ⟨d, Array.mem_push_self, h⟩

namespace Declarations

/-- A function takes one number. -/
theorem nextFunction_pushFunction (d : Declarations) (name : String) (arity : Nat) :
    (d.pushFunction name arity).nextFunction = d.nextFunction + 1 := by
  simp only [nextFunction, pushFunction, Array.size_push]
  omega

/-! ## Parts of a class -/

/-- The names of fields as far as they have been declared, with one more. -/
def addField (className : String) (found : List String × Declarations) (field : FieldDecl) :
    List String × Declarations :=
  if found.1.contains field.name then
    (found.1, found.2.report (.fieldRedeclared className field.name) field.span)
  else (found.1 ++ [field.name], found.2)

/-- Fields have been declared behind others. As long as there is no error, all of them have. -/
structure AddsFields (d : Declarations) (names : List String) (fields : List FieldDecl)
    (found : List String × Declarations) : Prop where
  later : found.2 = { d with diagnostics := found.2.diagnostics }
  failed : Failed d.diagnostics → Failed found.2.diagnostics
  distinct : names.Nodup → found.1.Nodup
  complete : ¬ Failed found.2.diagnostics → found.1 = names ++ fields.map (·.name)

theorem foldl_addField (className : String) (fields : List FieldDecl) (names : List String)
    (d : Declarations) :
    AddsFields d names fields (fields.foldl (addField className) (names, d)) := by
  induction fields generalizing names d with
  | nil => exact ⟨rfl, id, id, fun _ => (List.append_nil _).symm⟩
  | cons field rest ih =>
    rw [List.foldl_cons, addField]
    split
    · have h := ih names (d.report (.fieldRedeclared className field.name) field.span)
      exact ⟨h.later, fun hfailed => h.failed (hfailed.push _), h.distinct,
        fun hgood => absurd (h.failed (failed_push rfl)) hgood⟩
    · rename_i hfresh
      have h := ih (names ++ [field.name]) d
      refine ⟨h.later, h.failed, fun hdistinct => h.distinct ?_, fun hgood => ?_⟩
      · refine List.nodup_append.mpr ⟨hdistinct, by simp, ?_⟩
        rintro name hname _ hlast rfl
        obtain rfl := List.mem_singleton.mp hlast
        exact hfresh (List.contains_iff_mem.mpr hname)
      · rw [h.complete hgood]
        simp

/-- To declare the fields of a class gives out no numbers, and forgets no error. -/
theorem addFields_spec (d : Declarations) (className : String) (fields : List FieldDecl) :
    AddsFields d [] fields (d.addFields className fields) :=
  foldl_addField className fields [] d

/-- The methods of a class as functions of the unit. -/
def methodSignatures (className : String) (methods : List FunctionDecl) : List Signature :=
  methods.map fun method => ⟨className ++ "." ++ method.name, method.params.length⟩

/-- The methods as far as they have been declared, with one more. -/
def addMethod (className : String) (fields : List String) (found : Table Nat × Declarations)
    (method : FunctionDecl) : Table Nat × Declarations :=
  let id := found.2.nextFunction
  let d := found.2.pushFunction (className ++ "." ++ method.name) method.params.length
  if found.1.contains method.name || fields.contains method.name then
    (found.1, d.report (.memberRedeclared className method.name) method.span)
  else (found.1.insert method.name id, d)

/-- Methods have been declared beside others. Each has the next number, and as long as there is no
error, its name leads there. -/
structure AddsMethods (d : Declarations) (table : Table Nat) (className : String)
    (methods : List FunctionDecl) (found : Table Nat × Declarations) : Prop where
  later : found.2 =
    { d with
      functions := d.functions ++ (methodSignatures className methods).toArray
      diagnostics := found.2.diagnostics }
  failed : Failed d.diagnostics → Failed found.2.diagnostics
  ids : ∀ (name : String) (id : Nat), found.1.get? name = some id → table.get? name = some id ∨
    ∃ index, index < methods.length ∧ id = d.nextFunction + index
  kept : ∀ (name : String) (id : Nat), table.get? name = some id → found.1.get? name = some id
  complete : ¬ Failed found.2.diagnostics → ∀ (index : Nat) (method : FunctionDecl),
    methods[index]? = some method → found.1.get? method.name = some (d.nextFunction + index)

/-- One more method in front. -/
theorem AddsMethods.cons {d pushed : Declarations} {table inserted : Table Nat}
    {className : String} {method : FunctionDecl} {methods : List FunctionDecl}
    {found : Table Nat × Declarations} (h : AddsMethods pushed inserted className methods found)
    (hlater : pushed =
      { d.pushFunction (className ++ "." ++ method.name) method.params.length with
        diagnostics := pushed.diagnostics })
    (hfailed : Failed d.diagnostics → Failed pushed.diagnostics)
    (hids : ∀ name id, inserted.get? name = some id →
      table.get? name = some id ∨ id = d.nextFunction)
    (hkept : ∀ name id, table.get? name = some id → inserted.get? name = some id)
    (hcomplete : ¬ Failed pushed.diagnostics →
      inserted.get? method.name = some d.nextFunction) :
    AddsMethods d table className (method :: methods) found := by
  have hnext : pushed.nextFunction = d.nextFunction + 1 := by
    rw [hlater]
    exact nextFunction_pushFunction d _ _
  refine ⟨?_, fun hbefore => h.failed (hfailed hbefore), fun name id hid => ?_,
    fun name id hid => h.kept name id (hkept name id hid), fun hgood index other hother => ?_⟩
  · rw [h.later, hlater]
    simp [pushFunction, methodSignatures]
  · obtain hold | ⟨index, hindex, rfl⟩ := h.ids name id hid
    · obtain hold | rfl := hids name id hold
      · exact .inl hold
      · exact .inr ⟨0, Nat.zero_lt_succ _, rfl⟩
    · refine .inr ⟨index + 1, Nat.succ_lt_succ hindex, ?_⟩
      rw [hnext]
      omega
  · cases index with
    | zero =>
      obtain rfl : method = other := Option.some.inj hother
      exact h.kept _ _ (hcomplete fun hbefore => hgood (h.failed hbefore))
    | succ index =>
      rw [h.complete hgood index other hother, hnext, Nat.add_assoc, Nat.add_comm 1]

theorem foldl_addMethod (className : String) (fields : List String) (methods : List FunctionDecl)
    (table : Table Nat) (d : Declarations) :
    AddsMethods d table className methods
      (methods.foldl (addMethod className fields) (table, d)) := by
  induction methods generalizing table d with
  | nil =>
    exact ⟨by simp [methodSignatures], id, fun _ _ => .inl, fun _ _ => id,
      fun _ index method hmethod => by simp at hmethod⟩
  | cons method rest ih =>
    rw [List.foldl_cons, addMethod]
    dsimp only
    split
    · exact (ih table _).cons rfl (fun hfailed => hfailed.push _) (fun _ _ => .inl) (fun _ _ => id)
        fun hgood => absurd (failed_push rfl) hgood
    · rename_i hfresh
      have hnone : table.get? method.name = none := by
        rw [Table.get?_eq_none_iff, ← Table.contains_iff]
        exact fun hknown => hfresh (by rw [hknown, Bool.true_or])
      refine (ih (table.insert method.name d.nextFunction) _).cons rfl id (fun name id hid => ?_)
        (fun name id hid => ?_) fun _ => ?_
      · rw [Table.get?_insert] at hid
        split at hid
        · exact .inr (Option.some.inj hid).symm
        · exact .inl hid
      · rw [Table.get?_insert, if_neg]
        · exact hid
        · rintro rfl
          rw [hnone] at hid
          cases hid
      · rw [Table.get?_insert, if_pos rfl]

/-- To declare the methods of a class gives each the next number, and its name leads there. -/
theorem addMethods_spec (d : Declarations) (className : String) (fields : List String)
    (methods : List FunctionDecl) :
    AddsMethods d {} className methods (d.addMethods className fields methods) :=
  foldl_addMethod className fields methods {} d

/-- The functions that a class refers to have been declared. -/
structure Holds (d : Declarations) (c : Class) : Prop where
  fieldInit : ∃ index signature, d.functions[index]? = some signature ∧ signature.arity = 0 ∧
    c.fieldInit = d.functionBase + index
  methods : ∀ (name : String) (id : Nat), c.methods.get? name = some id →
    ∃ index, index < d.functions.size ∧ id = d.functionBase + index
  constructor : c.constructor? = c.methods.get? constructorName

/-- What a class refers to stays when more functions are declared. -/
theorem Holds.mono {d later : Declarations} {c : Class} (h : d.Holds c)
    (hbase : later.functionBase = d.functionBase) {more : Array Signature}
    (hfunctions : later.functions = d.functions ++ more) : later.Holds c := by
  obtain ⟨index, signature, hsignature, harity, hid⟩ := h.fieldInit
  have hinside := (Array.getElem?_eq_some_iff.mp hsignature).1
  refine ⟨⟨index, signature, ?_, harity, by rw [hid, hbase]⟩, fun name id hget => ?_, h.constructor⟩
  · rw [hfunctions, Array.getElem?_append_left hinside]
    exact hsignature
  · obtain ⟨place, hplace, hid⟩ := h.methods name id hget
    refine ⟨place, ?_, by rw [hid, hbase]⟩
    rw [hfunctions, Array.size_append]
    exact Nat.lt_add_right _ hplace

/-- A class refers to functions that have been declared where its own stand behind those before: the
one that initialises its fields, then its methods. -/
theorem holds_of_ids {d later : Declarations} {made : Class} {initial : Signature}
    {methods : List Signature} (hbase : later.functionBase = d.functionBase)
    (hfunctions : later.functions = d.functions ++ (initial :: methods).toArray)
    (harity : initial.arity = 0) (hinit : made.fieldInit = d.nextFunction)
    (hids : ∀ name id, made.methods.get? name = some id →
      ∃ index, index < methods.length ∧ id = d.nextFunction + 1 + index)
    (hconstructor : made.constructor? = made.methods.get? constructorName) :
    later.Holds made := by
  refine ⟨⟨d.functions.size, initial, ?_, harity, ?_⟩, fun name id hid => ?_, hconstructor⟩
  · rw [hfunctions]
    simp
  · rw [hinit, hbase]
    rfl
  · obtain ⟨index, hindex, rfl⟩ := hids name id hid
    refine ⟨d.functions.size + 1 + index, ?_, ?_⟩
    · rw [hfunctions]
      simp only [Array.size_append, List.size_toArray, List.length_cons]
      omega
    · rw [hbase]
      simp only [nextFunction]
      omega

/-- What is left alone when functions and classes are declared. -/
structure SameGlobals (d later : Declarations) : Prop where
  functionBase : later.functionBase = d.functionBase
  classBase : later.classBase = d.classBase
  globals : later.globals = d.globals
  newGlobals : later.newGlobals = d.newGlobals
  nextGlobal : later.nextGlobal = d.nextGlobal

/-- A class has been declared: a function that initialises its fields, its methods, and the class,
which refers to them. -/
structure AddsClass (d later : Declarations) (name : String) (decl : ClassDecl)
    (made : Class) : Prop extends SameGlobals d later where
  functions : later.functions =
    d.functions ++ (⟨name ++ ".<fields>", 0⟩ :: methodSignatures name decl.methods).toArray
  functionNames : later.functionNames = d.functionNames
  classes : later.classes = d.classes.push made
  named : made.name = name
  holds : later.Holds made
  fieldInit : made.fieldInit = d.nextFunction
  distinct : made.fields.Nodup
  methodIds : ∀ (name : String) (id : Nat), made.methods.get? name = some id →
    ∃ index, index < decl.methods.length ∧ id = d.nextFunction + 1 + index
  fields : ¬ Failed later.diagnostics → made.fields = decl.fields.map (·.name)
  methods : ¬ Failed later.diagnostics → ∀ (index : Nat) (method : FunctionDecl),
    decl.methods[index]? = some method →
      made.methods.get? method.name = some (d.nextFunction + 1 + index)
  failed : Failed d.diagnostics → Failed later.diagnostics
  classNames : (later.classNames = d.classNames ∧ Failed later.diagnostics) ∨
    (later.classNames = d.classNames.insert name (d.classBase + d.classes.size) ∧
      name ∉ d.classNames.names)

/-- To declare a class adds a class. -/
theorem addClass_adds (d : Declarations) (space : List String) (decl : ClassDecl) :
    ∃ made, AddsClass d (d.addClass space decl) (qualify space decl.name) decl made := by
  unfold addClass
  dsimp only
  generalize qualify space decl.name = name
  generalize hstarted : d.pushFunction (name ++ ".<fields>") 0 = started
  have hfields := started.addFields_spec name decl.fields
  generalize started.addFields name decl.fields = found at hfields ⊢
  obtain ⟨fields, fielded⟩ := found
  have hmethods := fielded.addMethods_spec name fields decl.methods
  generalize fielded.addMethods name fields decl.methods = found at hmethods ⊢
  obtain ⟨methods, methoded⟩ := found
  dsimp only
  have hfielded : fielded = { started with diagnostics := fielded.diagnostics } := hfields.later
  have hmethoded : methoded =
      { fielded with
        functions := fielded.functions ++ (methodSignatures name decl.methods).toArray
        diagnostics := methoded.diagnostics } := hmethods.later
  have hfunctions : methoded.functions = d.functions ++
      (⟨name ++ ".<fields>", 0⟩ :: methodSignatures name decl.methods).toArray := by
    rw [hmethoded, hfielded, ← hstarted]
    simp [pushFunction]
  have hnext : fielded.nextFunction = d.nextFunction + 1 := by
    rw [hfielded, ← hstarted]
    exact nextFunction_pushFunction d _ 0
  have hsame : SameGlobals d methoded := by
    rw [hmethoded, hfielded, ← hstarted]
    exact ⟨rfl, rfl, rfl, rfl, rfl⟩
  have hfailed : Failed d.diagnostics → Failed methoded.diagnostics := fun h =>
    hmethods.failed (hfields.failed (by rw [← hstarted]; exact h))
  have hgood : ¬ Failed methoded.diagnostics → ¬ Failed fielded.diagnostics := fun h hbefore =>
    h (hmethods.failed hbefore)
  have hids : ∀ name id, methods.get? name = some id →
      ∃ index, index < decl.methods.length ∧ id = d.nextFunction + 1 + index := by
    intro name id hid
    obtain hempty | hindex := hmethods.ids name id hid
    · cases hempty
    · rwa [hnext] at hindex
  have hcomplete : ¬ Failed methoded.diagnostics → ∀ index method,
      decl.methods[index]? = some method →
        methods.get? method.name = some (d.nextFunction + 1 + index) := fun h => by
    have hall := hmethods.complete h
    rwa [hnext] at hall
  have hrest : methoded.functionNames = d.functionNames ∧ methoded.classes = d.classes ∧
      methoded.classNames = d.classNames := by
    rw [hmethoded, hfielded, ← hstarted]
    exact ⟨rfl, rfl, rfl⟩
  obtain ⟨hfunctionNames, hclasses, hclassNames⟩ := hrest
  refine ⟨⟨name, fields, methods, d.nextFunction, methods.get? constructorName⟩, ?_⟩
  have hholds : methoded.Holds
      ⟨name, fields, methods, d.nextFunction, methods.get? constructorName⟩ := by
    refine holds_of_ids hsame.functionBase hfunctions rfl rfl (fun name id hid => ?_) rfl
    rw [methodSignatures, List.length_map]
    exact hids name id hid
  have hpushed : ∀ made, methoded.classes.push made = d.classes.push made :=
    fun _ => by rw [hclasses]
  split
  · exact ⟨⟨hsame.1, hsame.2, hsame.3, hsame.4, hsame.5⟩, hfunctions, hfunctionNames,
      hpushed _, rfl, ⟨hholds.1, hholds.2, hholds.3⟩, rfl,
      hfields.distinct .nil, hids, fun h => absurd (failed_push rfl) h,
      fun h => absurd (failed_push rfl) h, fun h => (hfailed h).push _,
      .inl ⟨hclassNames, failed_push rfl⟩⟩
  · rename_i hfresh
    refine ⟨⟨hsame.1, hsame.2, hsame.3, hsame.4, hsame.5⟩, hfunctions, hfunctionNames,
      hpushed _, rfl, ⟨hholds.1, hholds.2, hholds.3⟩, rfl,
      hfields.distinct .nil, hids, fun h => (hfields.complete (hgood h)).trans (List.nil_append _),
      hcomplete, hfailed, .inr ⟨?_, ?_⟩⟩
    · simp only [hclassNames]
    · rwa [Table.contains_iff, hclassNames] at hfresh

/-! ## Global variables -/

/-- The new global variables have the next slots of the program, one after the other, and names that
the program does not have. -/
structure GlobalsSound (program : Program) (d : Declarations) : Prop where
  next : d.nextGlobal = program.globalCount + d.newGlobals.size
  slots : d.newGlobals.toList.map (·.2) = List.range' program.globalCount d.newGlobals.size
  distinct : (d.newGlobals.toList.map (·.1)).Nodup
  listed : ∀ entry ∈ d.newGlobals.toList, entry.1 ∈ d.globals.names
  new : ∀ entry ∈ d.newGlobals.toList, entry.1 ∉ program.globalNames.names
  known : ∀ (name : String) (id : Nat), d.globals.get? name = some id →
    program.globalNames.get? name = some id ∨ (name, id) ∈ d.newGlobals.toList

/-- What does not touch global variables keeps them sound. -/
theorem GlobalsSound.same {program : Program} {d later : Declarations}
    (h : d.GlobalsSound program) (hsame : SameGlobals d later) : later.GlobalsSound program where
  next := by rw [hsame.nextGlobal, hsame.newGlobals, h.next]
  slots := by rw [hsame.newGlobals, h.slots]
  distinct := by rw [hsame.newGlobals]; exact h.distinct
  listed := by rw [hsame.newGlobals, hsame.globals]; exact h.listed
  new := by rw [hsame.newGlobals]; exact h.new
  known := by rw [hsame.globals, hsame.newGlobals]; exact h.known

/-- To declare a global variable leaves functions and classes alone, and forgets no error. -/
theorem addGlobal_frame (d : Declarations) (program : Program) (name : String) (span : Span) :
    (d.addGlobal program name span).functionBase = d.functionBase ∧
      (d.addGlobal program name span).classBase = d.classBase ∧
      (d.addGlobal program name span).functions = d.functions ∧
      (d.addGlobal program name span).classes = d.classes ∧
      (d.addGlobal program name span).functionNames = d.functionNames ∧
      (d.addGlobal program name span).classNames = d.classNames ∧
      (Failed d.diagnostics → Failed (d.addGlobal program name span).diagnostics) := by
  unfold addGlobal
  split
  · exact ⟨rfl, rfl, rfl, rfl, rfl, rfl, fun h => h.push _⟩
  · split <;> exact ⟨rfl, rfl, rfl, rfl, rfl, rfl, id⟩

/-- A name stays in a table. -/
theorem mem_names_insert {t : Table Nat} {name : String} (h : name ∈ t.names) (other : String)
    (id : Nat) : name ∈ (t.insert other id).names :=
  Table.mem_names_insertAll h [(other, id)]

/-- To declare a global variable keeps them sound. -/
theorem GlobalsSound.addGlobal {program : Program} {d : Declarations} (h : d.GlobalsSound program)
    (name : String) (span : Span) : (d.addGlobal program name span).GlobalsSound program := by
  unfold Declarations.addGlobal
  split
  · exact h.same ⟨rfl, rfl, rfl, rfl, rfl⟩
  · rename_i hfresh
    rw [Table.contains_iff] at hfresh
    split
    · rename_i id hid
      refine ⟨h.next, h.slots, h.distinct, fun entry hentry => ?_, h.new, fun other slot hget => ?_⟩
      · exact mem_names_insert (h.listed entry hentry) name id
      · rw [Table.get?_insert] at hget
        split at hget
        · rename_i hname
          rw [Option.some.injEq] at hget
          exact .inl (by rw [hname, hid, hget])
        · exact h.known other slot hget
    · rename_i hnone
      rw [Table.get?_eq_none_iff] at hnone
      have hlist : (d.newGlobals.push (name, d.nextGlobal)).toList =
          d.newGlobals.toList ++ [(name, d.nextGlobal)] := Array.toList_push
      refine ⟨?_, ?_, ?_, fun entry hentry => ?_, fun entry hentry => ?_, fun other slot hget => ?_⟩
      · simp only [Array.size_push, h.next, Nat.add_assoc]
      · simp only [hlist, List.map_append, h.slots, List.map_cons, List.map_nil]
        rw [Array.size_push, List.range'_concat, h.next, Nat.one_mul]
      · simp only [hlist, List.map_append, List.map_cons, List.map_nil]
        refine List.nodup_append.mpr ⟨h.distinct, by simp, ?_⟩
        rintro other hother _ hlast rfl
        obtain rfl : other = name := by simpa using hlast
        obtain ⟨entry, hentry, hname⟩ := List.mem_map.mp hother
        exact hfresh (hname ▸ h.listed entry hentry)
      · simp only [hlist, List.mem_append, List.mem_singleton] at hentry
        obtain hold | rfl := hentry
        · exact mem_names_insert (h.listed entry hold) name _
        · exact List.mem_map.mpr
            ⟨_, Table.mem_of_get? ((Table.get?_insert ..).trans (if_pos rfl)), rfl⟩
      · simp only [hlist, List.mem_append, List.mem_singleton] at hentry
        obtain hold | rfl := hentry
        · exact h.new entry hold
        · exact hnone
      · simp only [hlist, List.mem_append, List.mem_singleton]
        rw [Table.get?_insert] at hget
        split at hget
        · rename_i hname
          rw [Option.some.injEq] at hget
          exact .inr (.inr (by rw [hname, hget]))
        · exact (h.known other slot hget).imp_right .inl

/-! ## Whole texts -/

/-- All numbers of functions and classes that names lead to have been given out. As long as there is
no error, every class is under its own name. -/
structure Sound (program : Program) (d : Declarations) : Prop where
  functionBase : d.functionBase = program.functions.size
  classBase : d.classBase = program.classes.size
  functionNames : ∀ (name : String) (id : Nat), d.functionNames.get? name = some id →
    ∃ index signature, d.functions[index]? = some signature ∧ signature.name = name ∧
      id = d.functionBase + index
  functionsDistinct : d.functionNames.Distinct
  classNames : ∀ (name : String) (id : Nat), d.classNames.get? name = some id →
    ∃ index c, d.classes[index]? = some c ∧ c.name = name ∧ id = d.classBase + index
  classes : ∀ (index : Nat) (c : Class), d.classes[index]? = some c → d.Holds c
  globals : d.GlobalsSound program
  classesNamed : ¬ Failed d.diagnostics → ∀ (index : Nat) (c : Class),
    d.classes[index]? = some c → d.classNames.get? c.name = some (d.classBase + index)

/-- Nothing declared is sound. -/
theorem sound_start (program : Program) : (start program).Sound program where
  functionBase := rfl
  classBase := rfl
  functionNames := fun _ _ h => by cases h
  functionsDistinct := List.nodup_nil
  classNames := fun _ _ h => by cases h
  classes := fun _ _ h => by cases h
  globals :=
    { next := rfl
      slots := rfl
      distinct := List.nodup_nil
      listed := fun _ h => by cases h
      new := fun _ h => by cases h
      known := fun _ _ h => by cases h }
  classesNamed := fun _ _ _ h => by cases h

/-- To declare a function keeps declarations sound. -/
theorem Sound.addFunction {program : Program} {d : Declarations} (h : d.Sound program)
    (space : List String) (f : FunctionDecl) : (d.addFunction space f).Sound program := by
  generalize hname : qualify space f.name = name
  have hfunctions : (d.pushFunction name f.params.length).functions =
      d.functions ++ #[⟨name, f.params.length⟩] := Array.push_eq_append
  have hholds : ∀ {later : Declarations},
      later.functions = (d.pushFunction name f.params.length).functions →
      later.functionBase = d.functionBase → ∀ index c, d.classes[index]? = some c →
      later.Holds c := fun hlater hbase index c hc =>
    (h.classes index c hc).mono hbase (hlater.trans hfunctions)
  have hlast : ∀ {later : Declarations},
      later.functions = (d.pushFunction name f.params.length).functions →
      later.functionBase = d.functionBase → ∀ other id, d.functionNames.get? other = some id →
      ∃ index signature, later.functions[index]? = some signature ∧ signature.name = other ∧
        id = later.functionBase + index := by
    intro later hlater hbase other id hget
    obtain ⟨index, signature, hsignature, hother, hid⟩ := h.functionNames other id hget
    refine ⟨index, signature, ?_, hother, by rw [hid, hbase]⟩
    rw [hlater, hfunctions,
      Array.getElem?_append_left (Array.getElem?_eq_some_iff.mp hsignature).1]
    exact hsignature
  unfold Declarations.addFunction
  rw [hname]
  dsimp only
  split
  · exact ⟨h.functionBase, h.classBase, hlast rfl rfl, h.functionsDistinct, h.classNames,
      hholds rfl rfl, h.globals.same ⟨rfl, rfl, rfl, rfl, rfl⟩,
      fun hgood => absurd (failed_push rfl) hgood⟩
  · refine ⟨h.functionBase, h.classBase, fun other id hget => ?_, h.functionsDistinct.insert _ _,
      h.classNames, hholds rfl rfl, h.globals.same ⟨rfl, rfl, rfl, rfl, rfl⟩, h.classesNamed⟩
    simp only [Table.get?_insert] at hget
    split at hget
    · rename_i hother
      rw [Option.some.injEq] at hget
      refine ⟨d.functions.size, ⟨name, f.params.length⟩, ?_, hother.symm, hget.symm⟩
      rw [hfunctions]
      simp
    · exact hlast rfl rfl other id hget

/-- To declare a class keeps declarations sound. -/
theorem Sound.addClass {program : Program} {d : Declarations} (h : d.Sound program)
    (space : List String) (c : ClassDecl) : (d.addClass space c).Sound program := by
  obtain ⟨made, adds⟩ := d.addClass_adds space c
  generalize d.addClass space c = later at adds
  refine ⟨?_, ?_, fun name id hget => ?_, ?_, fun name id hget => ?_, fun index other hother => ?_,
    h.globals.same adds.toSameGlobals, fun hgood index other hother => ?_⟩
  · rw [adds.functionBase, h.functionBase]
  · rw [adds.classBase, h.classBase]
  · rw [adds.functionNames] at hget
    obtain ⟨index, signature, hsignature, hname, hid⟩ := h.functionNames name id hget
    refine ⟨index, signature, ?_, hname, by rw [hid, adds.functionBase]⟩
    rw [adds.functions, Array.getElem?_append_left (Array.getElem?_eq_some_iff.mp hsignature).1]
    exact hsignature
  · rw [adds.functionNames]
    exact h.functionsDistinct
  · have hold : d.classNames.get? name = some id → ∃ index c, later.classes[index]? = some c ∧
        c.name = name ∧ id = later.classBase + index := by
      intro hget
      obtain ⟨index, other, hother, hname, hid⟩ := h.classNames name id hget
      refine ⟨index, other, ?_, hname, by rw [hid, adds.classBase]⟩
      obtain ⟨hinside, hother⟩ := Array.getElem?_eq_some_iff.mp hother
      rw [adds.classes, Array.getElem?_push_lt hinside, hother]
    obtain ⟨hsame, -⟩ | ⟨hinsert, -⟩ := adds.classNames
    · exact hold (hsame ▸ hget)
    · rw [hinsert, Table.get?_insert] at hget
      split at hget
      · rename_i hname
        rw [Option.some.injEq] at hget
        refine ⟨d.classes.size, made, ?_, adds.named.trans hname.symm, ?_⟩
        · rw [adds.classes, Array.getElem?_push_size]
        · rw [← hget, adds.classBase]
      · exact hold hget
  · rw [adds.classes, Array.getElem?_push] at hother
    split at hother
    · rw [Option.some.injEq] at hother
      exact hother ▸ adds.holds
    · exact (h.classes index other hother).mono adds.functionBase adds.functions
  · obtain ⟨-, hfailed⟩ | ⟨hinsert, hfresh⟩ := adds.classNames
    · exact absurd hfailed hgood
    · rw [adds.classes, Array.getElem?_push] at hother
      rw [hinsert, Table.get?_insert, adds.classBase]
      split at hother
      · rename_i hlast
        rw [Option.some.injEq] at hother
        rw [if_pos (hother ▸ adds.named), hlast]
      · have hold := h.classesNamed (fun hfailed => hgood (adds.failed hfailed)) index other hother
        have hne : other.name ≠ qualify space c.name := fun hsame =>
          hfresh (hsame ▸ List.mem_map.mpr ⟨_, Table.mem_of_get? hold, rfl⟩)
        rw [if_neg hne, hold]

/-- To declare a global variable keeps declarations sound. -/
theorem Sound.addGlobal {program : Program} {d : Declarations} (h : d.Sound program)
    (name : String) (span : Span) : (d.addGlobal program name span).Sound program := by
  obtain ⟨hfunctionBase, hclassBase, hfunctions, hclasses, hfunctionNames, hclassNames, hfailed⟩ :=
    d.addGlobal_frame program name span
  refine ⟨?_, ?_, ?_, ?_, ?_, ?_, h.globals.addGlobal name span, fun hgood => ?_⟩
  · rw [hfunctionBase, h.functionBase]
  · rw [hclassBase, h.classBase]
  · rw [hfunctionNames, hfunctions, hfunctionBase]
    exact h.functionNames
  · rw [hfunctionNames]
    exact h.functionsDistinct
  · rw [hclassNames, hclasses, hclassBase]
    exact h.classNames
  · rw [hclasses]
    exact fun index c hc => (h.classes index c hc).mono hfunctionBase
      (by rw [hfunctions, Array.append_empty])
  · rw [hclasses, hclassNames, hclassBase]
    exact h.classesNamed fun hbefore => hgood (hfailed hbefore)

mutual

/-- To declare what an item declares keeps declarations sound. -/
theorem Sound.addItem {program : Program} : ∀ (item : Item) (space : List String)
    {d : Declarations}, d.Sound program → (Declarations.addItem program space d item).Sound program
  | .space path items _, space, d, h => by
    rw [Declarations.addItem]
    exact Sound.addItems items (space ++ path) h
  | .classDecl c, space, d, h => by
    rw [Declarations.addItem]
    exact h.addClass space c
  | .function f, space, d, h => by
    rw [Declarations.addItem]
    exact h.addFunction space f
  | .stmt (.letVar name _ span), space, d, h => by
    rw [Declarations.addItem]
    split
    · exact h.addGlobal name span
    · exact h
  | .stmt (.assign ..), _, _, h | .stmt (.ifThen ..), _, _, h | .stmt (.ifElse ..), _, _, h
  | .stmt (.loop ..), _, _, h | .stmt (.ret ..), _, _, h | .stmt (.block ..), _, _, h
  | .stmt (.expr _), _, _, h => by
    rw [Declarations.addItem]
    · exact h
    · nofun

/-- To declare what several items declare keeps declarations sound. -/
theorem Sound.addItems {program : Program} : ∀ (items : List Item) (space : List String)
    {d : Declarations}, d.Sound program →
      (Declarations.addItems program space d items).Sound program
  | [], _, _, h => by
    rw [Declarations.addItems]
    exact h
  | item :: rest, space, d, h => by
    rw [Declarations.addItems]
    exact Sound.addItems rest space (Sound.addItem item space h)

end

/-- What source texts declare is sound. -/
theorem sound_ofTexts (program : Program) (texts : List (List Item)) :
    (ofTexts program texts).Sound program := by
  have general : ∀ {d : Declarations}, d.Sound program →
      (texts.foldl (fun d items => addItems program [] d items) d).Sound program := by
    induction texts with
    | nil => exact id
    | cons items rest ih => exact fun h => ih (h.addItems items [])
  exact general (sound_start program)

end Declarations

end ScriptHost
