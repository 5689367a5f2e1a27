import Mathlib.Data.String.Basic
import ScriptHost.Disk.Access
/-!
# Places on a disk

What stands between the slashes of a path is told by its characters (`Path.pieces_eq`), and a path
that ends with a name of its own leads to what has that name in a directory (`Disk.stat_eq_ok`). No
operation takes a directory away (`Disk.Grows`), so a path leads where it led before, and each
operation that succeeds is an update of the places that its paths lead to.
-/

set_option autoImplicit false

namespace ScriptHost.Path

/-! ## Pieces -/

section

open String

/-- Splitting goes on behind `l` and `m`, of which `m` belongs to the piece that is being read. -/
theorem splitOnAux_slash (r : List Char) : ∀ (l m : List Char) (done : List String),
    String.splitOnAux (ofList (l ++ m ++ r)) "/" ⟨utf8Len l⟩ ⟨utf8Len l + utf8Len m⟩ 0 done =
      done.reverse ++ (List.splitOnPPrepend (· == '/') r m.reverse).map ofList := by
  induction r with
  | nil =>
    intro l m done
    have hend : Pos.Raw.atEnd (ofList (l ++ m ++ [])) ⟨utf8Len l + utf8Len m⟩ = true := by
      simpa using atEnd_of_valid (l ++ m) []
    rw [String.splitOnAux, if_pos hend, extract_of_valid l m []]
    simp
  | cons c r ih =>
    intro l m done
    have hend : ¬ Pos.Raw.atEnd (ofList (l ++ m ++ c :: r)) ⟨utf8Len l + utf8Len m⟩ = true := by
      simpa using atEnd_of_valid (l ++ m) (c :: r)
    have hget : Pos.Raw.get (ofList (l ++ m ++ c :: r)) ⟨utf8Len l + utf8Len m⟩ = c := by
      simpa using get_of_valid (l ++ m) (c :: r)
    have hnext : Pos.Raw.next (ofList (l ++ m ++ c :: r)) ⟨utf8Len l + utf8Len m⟩ =
        ⟨utf8Len l + utf8Len m + c.utf8Size⟩ := by
      simpa using next_of_valid (l ++ m) c r
    have hmark : Pos.Raw.get "/" 0 = '/' := rfl
    have hover : Pos.Raw.next "/" 0 = ⟨1⟩ := rfl
    have hlast : Pos.Raw.atEnd "/" ⟨1⟩ = true := rfl
    rw [String.splitOnAux, if_neg hend, hget, hmark]
    dsimp only
    rw [hover, if_pos hlast]
    split
    · rename_i hslash
      obtain rfl : c = '/' := beq_iff_eq.mp hslash
      have hback : (⟨utf8Len l + utf8Len m + '/'.utf8Size⟩ : Pos.Raw).unoffsetBy ⟨1⟩ =
          ⟨utf8Len l + utf8Len m⟩ := rfl
      have hrest := ih (l ++ m ++ ['/']) [] (ofList m :: done)
      rw [hnext, hback, extract_of_valid l m ('/' :: r), List.splitOnPPrepend_cons_eq_if,
        if_pos hslash]
      simpa [Nat.add_assoc] using hrest
    · rename_i hother
      have hback : (⟨utf8Len l + utf8Len m⟩ : Pos.Raw).unoffsetBy 0 = ⟨utf8Len l + utf8Len m⟩ := rfl
      have hrest := ih l (m ++ [c]) done
      rw [hback, hnext, List.splitOnPPrepend_cons_eq_if, if_neg hother]
      simpa [Nat.add_assoc] using hrest

end

theorem pieces_eq (path : String) :
    pieces path = (path.toList.splitOnP (· == '/')).map String.ofList := by
  have hsplit := splitOnAux_slash path.toList [] [] []
  simpa [pieces, String.splitOn] using hsplit

theorem pieces_slash (front back : String) :
    pieces (front ++ "/" ++ back) = pieces front ++ pieces back := by
  have hchars : (front ++ "/" ++ back).toList = front.toList ++ '/' :: back.toList := by simp
  have hsplit : (front.toList ++ '/' :: back.toList).splitOnP (· == '/') =
      front.toList.splitOnP (· == '/') ++ back.toList.splitOnP (· == '/') :=
    List.splitOnP_append_cons _ _ (beq_self_eq_true '/')
  rw [pieces_eq, pieces_eq, pieces_eq, hchars, hsplit, List.map_append]

/-! ## Names -/

/-- A name that leads to something of its own. -/
structure IsName (name : String) : Prop where
  closed : '/' ∉ name.toList
  nonempty : name ≠ ""
  notHere : name ≠ "."
  notUp : name ≠ ".."

variable {dir name path : String}

theorem IsName.pieces_eq (h : IsName name) : pieces name = [name] := by
  have hone : name.toList.splitOnP (· == '/') = [name.toList] :=
    List.splitOnP_eq_singleton fun c hc => beq_eq_false_iff_ne.mpr fun hslash => h.closed (hslash ▸ hc)
  rw [Path.pieces_eq, hone, List.map_singleton, String.ofList_toList]

theorem IsName.toList_ne_nil (h : IsName name) : name.toList ≠ [] := fun hnil =>
  h.nonempty (String.toList_eq_nil_iff.mp hnil)

theorem IsName.relative (h : IsName name) : isAbsolute name = false := by
  unfold isAbsolute
  rw [beq_eq_false_iff_ne]
  exact fun hslash => h.closed (List.mem_of_head? hslash)

theorem IsName.part?_eq (h : IsName name) : part? name = some (.name name) := by
  unfold part?
  split
  · exact absurd rfl h.nonempty
  · exact absurd rfl h.notHere
  · exact absurd rfl h.notUp
  · rfl

/-! ## Paths that end with a name -/

/-- The last thing in a path is this name. -/
structure EndsWith (path name : String) : Prop where
  isName : IsName name
  pieces_eq : ∃ front, pieces path = front ++ [name]
  notOpen : endsOpen path = false

theorem endsOpen_append (h : IsName name) : endsOpen (dir ++ name) = false := by
  unfold endsOpen
  rw [String.toList_append, List.getLast?_append_of_ne_nil _ h.toList_ne_nil, beq_eq_false_iff_ne]
  exact fun hslash => h.closed (List.mem_of_getLast? hslash)

theorem eq_of_endsOpen (h : endsOpen dir = true) : ∃ front, dir = front ++ "/" := by
  have hlast : dir.toList.getLast? = some '/' := beq_iff_eq.mp h
  obtain ⟨front, hfront⟩ := List.getLast?_eq_some_iff.mp hlast
  refine ⟨String.ofList front, String.toList_injective ?_⟩
  rw [hfront, String.toList_append, String.toList_ofList]
  rfl

theorem endsWith_join (dir : String) (h : IsName name) : EndsWith (join dir name) name := by
  unfold join
  rw [if_neg (Bool.not_eq_true _ ▸ h.relative)]
  split
  · rename_i hready
    refine ⟨h, ?_, endsOpen_append h⟩
    rcases Bool.or_eq_true_iff.mp hready with hempty | hopen
    · obtain rfl := String.isEmpty_iff.mp hempty
      exact ⟨[], by rw [String.empty_append, h.pieces_eq, List.nil_append]⟩
    · obtain ⟨front, rfl⟩ := eq_of_endsOpen hopen
      exact ⟨pieces front, by rw [pieces_slash, h.pieces_eq]⟩
  · exact ⟨h, ⟨pieces dir, by rw [pieces_slash, h.pieces_eq]⟩, endsOpen_append h⟩

theorem EndsWith.fileName?_eq (h : EndsWith path name) : fileName? path = some name := by
  obtain ⟨front, hfront⟩ := h.pieces_eq
  have hlast : (parts path).getLast? = some (.name name) := by
    unfold parts
    rw [hfront, List.filterMap_append, List.filterMap_cons_some h.isName.part?_eq, List.filterMap_nil,
      ← List.append_assoc, List.getLast?_concat]
  rw [fileName?, hlast]

theorem EndsWith.withFileName {next : String} (h : EndsWith path name) (hnext : IsName next) :
    EndsWith (withFileName path next) next := by
  rw [Path.withFileName, h.fileName?_eq]
  exact endsWith_join _ hnext

/-- The names that lead to what a path ends with. -/
theorem EndsWith.names_eq (h : EndsWith path name) : ∃ front, Disk.names path = front ++ [name] := by
  obtain ⟨front, hfront⟩ := h.pieces_eq
  refine ⟨front.filter (!·.isEmpty), ?_⟩
  rw [Disk.names, hfront, List.filter_append, List.filter_cons_of_pos, List.filter_nil]
  simpa using h.isName.nonempty

end ScriptHost.Path

namespace ScriptHost.Disk

open ScriptHost.Path (EndsWith IsName)

variable {disk before middle after : Disk} {place other dir : Place} {path name : String}
  {node : DiskNode} {bytes : ByteArray}

/-- Two steps in a row succeed where each of them does. -/
theorem bind_eq_ok {ε α β : Type} {step : Except ε α} {next : α → Except ε β} {b : β} :
    step >>= next = .ok b ↔ ∃ a, step = .ok a ∧ next a = .ok b := by
  cases step with
  | error e => exact ⟨nofun, nofun⟩
  | ok a => exact ⟨fun h => ⟨a, rfl, h⟩, fun ⟨_, ha, h⟩ => Except.ok.inj ha ▸ h⟩

/-! ## What stands at a place -/

theorem node?_erase (hplace : place ≠ []) :
    (disk.erase place).node? other = if other = place then none else disk.node? other := by
  have hfind : (disk.entries.filter (·.1 != place)).find? (·.1 == other) =
      if other = place then none else disk.entries.find? (·.1 == other) := by
    rw [List.find?_filter]
    split
    · subst other
      simp
    · rename_i hother
      congr 1
      funext entry
      by_cases hentry : entry.1 = other <;> simp [hentry, hother]
  by_cases hroot : other = []
  · subst hroot
    simp [node?, hplace.symm]
  · simp only [node?, erase, List.isEmpty_iff, if_neg hroot, hfind]
    split <;> rfl

theorem node?_set (hplace : place ≠ []) :
    (disk.set place node).node? other = if other = place then some node else disk.node? other := by
  by_cases hroot : other = []
  · subst hroot
    simp [node?, hplace.symm]
  · have herase : (disk.erase place).node? other = if other = place then none else disk.node? other :=
      node?_erase hplace
    simp only [node?, List.isEmpty_iff, if_neg hroot] at herase ⊢
    simp only [set, List.find?_append, Option.map_or, herase]
    by_cases hother : other = place
    · subst hother
      simp
    · simp [hother, Ne.symm hother]

theorem node?_move {source destination : Place} (hsource : source ≠ []) (hdestination : destination ≠ [])
    (h : disk.node? source = some (.file bytes)) :
    (disk.move source destination bytes).node? other =
      if other = destination then some (.file bytes)
      else if other = source then none else disk.node? other := by
  unfold move
  split
  · rename_i hsame
    obtain rfl := beq_iff_eq.mp hsame
    split
    · subst other
      exact h
    · rfl
  · rw [node?_set hdestination, node?_erase hsource]

/-- What the file at a place holds, if there is one. -/
def file? (disk : Disk) (place : Place) : Option ByteArray :=
  match disk.node? place with
  | some (.file bytes) => some bytes
  | _ => none

theorem file?_eq_some : disk.file? place = some bytes ↔ disk.node? place = some (.file bytes) := by
  unfold file?
  split
  · rename_i held hheld
    rw [hheld]
    simp
  · rename_i hnone
    exact ⟨nofun, fun h => absurd h (hnone bytes)⟩

theorem file?_congr (h : before.node? place = after.node? place) :
    before.file? place = after.file? place := by
  rw [file?, file?, h]

/-! ## Directories -/

/-- The directories of a disk are directories later. -/
structure Grows (before after : Disk) : Prop where
  current : after.current = before.current
  dirs : ∀ {place}, before.node? place = some .dir → after.node? place = some .dir

theorem Grows.refl (disk : Disk) : Grows disk disk := ⟨rfl, id⟩

theorem Grows.trans (h : Grows before middle) (h' : Grows middle after) : Grows before after :=
  ⟨h'.current.trans h.current, fun hdir => h'.dirs (h.dirs hdir)⟩

theorem grows_set (hplace : place ≠ []) (hfree : disk.node? place ≠ some .dir) :
    Grows disk (disk.set place node) where
  current := rfl
  dirs := by
    intro other hdir
    have hother : other ≠ place := fun hsame => hfree (hsame ▸ hdir)
    rw [node?_set hplace, if_neg hother]
    exact hdir

theorem grows_move {source destination : Place} (hsource : source ≠ []) (hdestination : destination ≠ [])
    (h : disk.node? source = some (.file bytes)) (hfree : disk.node? destination ≠ some .dir) :
    Grows disk (disk.move source destination bytes) where
  current := by
    unfold move
    split <;> rfl
  dirs := by
    intro other hdir
    have hto : other ≠ destination := fun hsame => hfree (hsame ▸ hdir)
    have hfrom : other ≠ source := fun hsame => by
      rw [hsame, h] at hdir
      cases hdir
    rw [node?_move hsource hdestination h, if_neg hto, if_neg hfrom]
    exact hdir

/-- A file that is written adds no directory. -/
theorem set_grows (hplace : place ≠ []) : (disk.set place (.file bytes)).Grows disk where
  current := rfl
  dirs := by
    intro other hdir
    rw [node?_set hplace] at hdir
    split at hdir
    · cases hdir
    · exact hdir

theorem move_grows {source destination : Place} (hsource : source ≠ []) (hdestination : destination ≠ [])
    (h : disk.node? source = some (.file bytes)) : (disk.move source destination bytes).Grows disk where
  current := by
    unfold move
    split <;> rfl
  dirs := by
    intro other hdir
    rw [node?_move hsource hdestination h] at hdir
    split at hdir
    · cases hdir
    · split at hdir
      · cases hdir
      · exact hdir

/-! ## Where a path leads -/

theorem expectDir_eq_ok : disk.expectDir place = .ok () ↔ disk.node? place = some .dir := by
  unfold expectDir
  split <;> simp_all

theorem Grows.expectDir (h : Grows before after) (hdir : before.expectDir place = .ok ()) :
    after.expectDir place = .ok () :=
  expectDir_eq_ok.mpr (h.dirs (expectDir_eq_ok.mp hdir))

theorem Grows.walk (h : Grows before after) {found : Place} {names : List String} :
    before.walk place names = .ok found → after.walk place names = .ok found := by
  induction names generalizing place with
  | nil => exact id
  | cons name rest ih =>
    intro hwalk
    rw [Disk.walk] at hwalk ⊢
    obtain ⟨⟨⟩, hdir, hrest⟩ := bind_eq_ok.mp hwalk
    refine bind_eq_ok.mpr ⟨(), h.expectDir hdir, ?_⟩
    split
    · rw [if_pos ‹_›] at hrest
      exact ih hrest
    · rw [if_neg ‹_›] at hrest
      split
      · rw [if_pos ‹_›] at hrest
        exact ih hrest
      · rw [if_neg ‹_›] at hrest
        split
        · rw [if_pos ‹_›] at hrest
          cases hrest
        · rw [if_neg ‹_›] at hrest
          exact ih hrest

/-- The last step on the way to something with a name of its own. -/
theorem walk_concat (h : IsName name) (front : List String) :
    disk.walk place (front ++ [name]) = (do
      let dir ← disk.walk place front
      disk.expectDir dir
      if maxNameBytes < name.utf8ByteSize then .error .nameTooLong else .ok (dir ++ [name])) := by
  induction front generalizing place with
  | nil =>
    simp only [List.nil_append, walk, beq_iff_eq, h.notHere, h.notUp, if_false]
    rfl
  | cons first rest ih =>
    simp only [List.cons_append, walk, ih, bind_assoc]
    congr 1
    funext _
    split
    · rfl
    · split
      · rfl
      · split <;> rfl

/-- The last name of a path stands in a directory. -/
theorem target_eq (h : EndsWith path name) :
    disk.target path = (do
      checkPath path
      let dir ← disk.walk (disk.start path) (names path).dropLast
      disk.expectDir dir
      if maxNameBytes < name.utf8ByteSize then .error .nameTooLong else .ok (dir, .name name)) := by
  obtain ⟨front, hnames⟩ := h.names_eq
  simp only [target, hnames, List.getLast?_concat]
  congr! 7
  split
  · rename_i hnone
    cases hnone
  · rename_i hhere
    exact absurd (Option.some.inj hhere) h.isName.notHere
  · rename_i hup
    exact absurd (Option.some.inj hup) h.isName.notUp
  · rename_i last _ _ hlast
    rw [Option.some.inj hlast]

theorem stat_eq (h : EndsWith path name) :
    disk.stat path = (do
      let found ← disk.target path
      match disk.node? (found.1 ++ [name]) with
      | none => .error .notFound
      | some node => .ok (found.1 ++ [name], node)) := by
  obtain ⟨front, hnames⟩ := h.names_eq
  simp only [target_eq h, stat, hnames, List.dropLast_concat, walk_concat h.isName, bind_assoc,
    h.notOpen]
  congr! 6
  split
  · rfl
  · rename_i dir _
    simp only [bind, Except.bind]
    cases disk.node? (dir ++ [name]) with
    | none => rfl
    | some node => cases node <;> rfl

theorem target_name {last : PathEnd} (h : EndsWith path name)
    (htarget : disk.target path = .ok (dir, last)) : last = .name name := by
  rw [target_eq h] at htarget
  obtain ⟨-, -, htarget⟩ := bind_eq_ok.mp htarget
  obtain ⟨found, -, htarget⟩ := bind_eq_ok.mp htarget
  obtain ⟨-, -, htarget⟩ := bind_eq_ok.mp htarget
  split at htarget
  · cases htarget
  · cases htarget
    rfl

/-- A path that ends with a name leads to what stands under that name in its directory. -/
theorem stat_eq_ok (h : EndsWith path name) :
    disk.stat path = .ok (place, node) ↔
      ∃ dir, disk.target path = .ok (dir, .name name) ∧ place = dir ++ [name] ∧
        disk.node? place = some node := by
  rw [stat_eq h, bind_eq_ok]
  constructor
  · rintro ⟨⟨dir, last⟩, htarget, hfound⟩
    obtain rfl := target_name h htarget
    dsimp only at hfound
    split at hfound
    · cases hfound
    · rename_i hnode
      cases hfound
      exact ⟨dir, htarget, rfl, hnode⟩
  · rintro ⟨dir, htarget, rfl, hnode⟩
    exact ⟨_, htarget, by dsimp only; rw [hnode]⟩

theorem Grows.target {found : Place × PathEnd} (h : Grows before after)
    (htarget : before.target path = .ok found) : after.target path = .ok found := by
  unfold Disk.target at htarget ⊢
  obtain ⟨⟨⟩, hpath, htarget⟩ := bind_eq_ok.mp htarget
  obtain ⟨dir, hwalk, htarget⟩ := bind_eq_ok.mp htarget
  obtain ⟨⟨⟩, hdir, htarget⟩ := bind_eq_ok.mp htarget
  have hstart : after.start path = before.start path := by rw [start, start, h.current]
  refine bind_eq_ok.mpr ⟨(), hpath, bind_eq_ok.mpr ⟨dir, ?_, bind_eq_ok.mpr ⟨(), ?_, htarget⟩⟩⟩
  · rw [hstart]
    exact h.walk hwalk
  · exact h.expectDir hdir

/-- A path that leads to a file leads to the same place later, as long as there is a file. -/
theorem Grows.stat {held now : ByteArray} (h : Grows before after) (hpath : EndsWith path name)
    (hstat : before.stat path = .ok (place, .file held)) (hnow : after.file? place = some now) :
    after.stat path = .ok (place, .file now) := by
  obtain ⟨dir, htarget, hplace, -⟩ := (stat_eq_ok hpath).mp hstat
  exact (stat_eq_ok hpath).mpr ⟨dir, h.target htarget, hplace, file?_eq_some.mp hnow⟩

theorem Grows.stat_place {node' : DiskNode} (h : Grows before after) (hpath : EndsWith path name)
    (hbefore : before.stat path = .ok (place, node)) (hafter : after.stat path = .ok (other, node')) :
    place = other := by
  obtain ⟨dir, htarget, rfl, -⟩ := (stat_eq_ok hpath).mp hbefore
  obtain ⟨dir', htarget', rfl, -⟩ := (stat_eq_ok hpath).mp hafter
  cases (h.target htarget).symm.trans htarget'
  rfl

/-! ## Operations that succeed -/

theorem createDir_ok (h : disk.createDir path = .ok after) :
    ∃ dir last, disk.node? (dir ++ [last]) = none ∧ after = disk.set (dir ++ [last]) .dir := by
  obtain ⟨⟨dir, last⟩, -, h⟩ := bind_eq_ok.mp h
  cases last with
  | dots => cases h
  | name last =>
    dsimp only at h
    split at h
    · cases h
    · rename_i hfree
      cases h
      exact ⟨dir, last, hfree, rfl⟩

theorem createFile_ok (h : disk.createFile path = .ok after) :
    ∃ dir last, disk.target path = .ok (dir, .name last) ∧ disk.node? (dir ++ [last]) ≠ some .dir ∧
      after = disk.set (dir ++ [last]) (.file .empty) := by
  obtain ⟨⟨dir, last⟩, htarget, h⟩ := bind_eq_ok.mp h
  cases last with
  | dots => cases h
  | name last =>
    dsimp only at h
    split at h
    · cases h
    · split at h
      · cases h
      · rename_i hfree
        cases h
        exact ⟨dir, last, htarget, hfree, rfl⟩

theorem append_ok (h : disk.append path bytes = .ok after) :
    ∃ place held, disk.stat path = .ok (place, .file held) ∧
      after = disk.set place (.file (held ++ bytes)) := by
  obtain ⟨⟨place, node⟩, hstat, h⟩ := bind_eq_ok.mp h
  cases node with
  | dir => cases h
  | file held =>
    cases h
    exact ⟨place, held, hstat, rfl⟩

theorem sync_ok (h : disk.perform (.sync path) = .ok after) : after = disk := by
  obtain ⟨-, -, h⟩ := bind_eq_ok.mp h
  cases h
  rfl

theorem rename_ok {source target : String} (h : disk.rename source target = .ok after) :
    ∃ fromDir fromName toDir toName bytes, disk.target source = .ok (fromDir, .name fromName) ∧
      disk.target target = .ok (toDir, .name toName) ∧
      disk.node? (fromDir ++ [fromName]) = some (.file bytes) ∧
      disk.node? (toDir ++ [toName]) ≠ some .dir ∧
      after = disk.move (fromDir ++ [fromName]) (toDir ++ [toName]) bytes := by
  obtain ⟨⟨fromDir, fromEnd⟩, hfrom, h⟩ := bind_eq_ok.mp h
  obtain ⟨⟨toDir, toEnd⟩, hto, h⟩ := bind_eq_ok.mp h
  dsimp only at h
  split at h
  · rename_i fromName toName _
    split at h
    · cases h
    · cases h
    · rename_i bytes hbytes
      split at h
      · cases h
      · split at h
        · cases h
        · rename_i hfree
          cases h
          exact ⟨fromDir, fromName, toDir, toName, bytes, hfrom, hto, hbytes, hfree, rfl⟩
  · cases h

theorem stat_node? (h : disk.stat path = .ok (place, node)) : disk.node? place = some node := by
  obtain ⟨-, -, h⟩ := bind_eq_ok.mp h
  obtain ⟨found, -, h⟩ := bind_eq_ok.mp h
  split at h
  · cases h
  · rename_i hfile
    split at h
    · cases h
    · cases h
      exact hfile
  · rename_i hdir
    cases h
    exact hdir

/-- Only an operation that makes a directory adds one. -/
theorem grows_back {action : DiskAction} (haction : ∀ path, action ≠ .createDir path)
    (h : disk.perform action = .ok after) : after.Grows disk := by
  cases action with
  | createDir path => exact absurd rfl (haction path)
  | createFile path =>
    obtain ⟨dir, last, -, -, rfl⟩ := createFile_ok h
    exact set_grows (by simp)
  | append path more =>
    obtain ⟨place, held, hstat, rfl⟩ := append_ok h
    refine set_grows ?_
    rintro rfl
    cases stat_node? hstat
  | sync path =>
    rw [sync_ok h]
    exact .refl disk
  | rename source target =>
    obtain ⟨fromDir, fromName, toDir, toName, bytes, -, -, hbytes, -, rfl⟩ := rename_ok h
    exact move_grows (by simp) (by simp) hbytes

end ScriptHost.Disk
