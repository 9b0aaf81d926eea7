import Mathlib.Data.List.Nodup
import SyncBack.Scripts.LayerImports

/-!
# What the check of imports sees

An import runs when the module is loaded or a function called, unless it stands in the body of an
`if TYPE_CHECKING`. `Occurs runtimeBlocks` says where imports that run can stand,
`Occurs visitedBlocks` which of them the walk of the check comes to: all but those inside an
`except` handler or a `case`. The check reads the names as they are written; what a statement
imports is `importedModules`, with relative names resolved and the names that are modules
themselves.

`reports_iff` is the behaviour of the check, `check_complete_iff` says when it is what one expects.
-/

namespace SyncBack

/-- The package of a file; an `__init__` is in its own package. -/
def SourceFile.package (file : SourceFile) : List Text := file.parts.dropLast

namespace LayerImports

/-! ## What a statement imports -/

/-- The module that a from-import names. A relative name starts at the package of the file, with
`level - 1` parts taken off; there is none beyond the top. -/
def fromModule (package : List Text) (module : Option Text) : ℕ → Option Text
  | 0 => module
  | level + 1 =>
      if package.length < level + 1 then none
      else
        let base := dotted (package.take (package.length - level))
        match module with
        | some module => some (base ++ '.' :: module)
        | none => some base

/-- The modules that a statement imports in a file of the package: those that it names, and for a
from-import also the names taken from the module, which may be modules themselves. -/
def importedModules (package : List Text) : ImportStmt → List Text
  | .import_ _ _ names => names
  | .importFrom _ _ module names level =>
      match fromModule package module level with
      | none => []
      | some base => base :: names.map fun name => base ++ '.' :: name

/-- The modules that a statement names, as they are written. -/
def writtenModules : ImportStmt → List Text
  | .import_ _ _ names => names
  | .importFrom _ _ (some module) _ _ => if module = [] then [] else [module]
  | .importFrom _ _ none _ _ => []

/-- The statement has a relative name. -/
def Relative : ImportStmt → Prop
  | .import_ _ _ _ => False
  | .importFrom _ _ _ _ level => level ≠ 0

/-- Some of these modules must not be imported by the file. -/
def Forbidden (file : SourceFile) (modules : List Text) : Prop :=
  ∃ module ∈ modules, ∃ target ∈ forbiddenFor (moduleName file.parts),
    matchesModule module target = true

/-- The statement imports a module that the file must not import. -/
def ImportsForbidden (file : SourceFile) (stmt : ImportStmt) : Prop :=
  Forbidden file (importedModules file.package stmt)

/-- The statement spells out a module that the file must not import. -/
def SpellsForbidden (file : SourceFile) (stmt : ImportStmt) : Prop :=
  Forbidden file (writtenModules stmt)

/-! ## Where a statement stands -/

/-- The blocks of a statement in which imports run. -/
def runtimeBlocks : PyStmt → List (List PyStmt)
  | .import_ _ => []
  | .block _ body => [body]
  | .loop _ body orelse => [body, orelse]
  | .if_ test body orelse => if isTypeCheckingBlock test then [orelse] else [body, orelse]
  | .try_ _ body handlers orelse finalbody => body :: handlers ++ [orelse, finalbody]
  | .match_ cases => cases
  | .simple => []

/-- The blocks of a statement without the handlers and cases. -/
def visitedBlocks : PyStmt → List (List PyStmt)
  | .try_ _ body _ orelse finalbody => [body, orelse, finalbody]
  | .match_ _ => []
  | node => runtimeBlocks node

/-- The statement occurs in a list of statements, at any depth. -/
inductive Occurs (blocks : PyStmt → List (List PyStmt)) : List PyStmt → ImportStmt → Prop where
  | here {body stmt} (h : .import_ stmt ∈ body) : Occurs blocks body stmt
  | inside {body node inner stmt} (hnode : node ∈ body) (hinner : inner ∈ blocks node)
      (h : Occurs blocks inner stmt) : Occurs blocks body stmt

/-- The import runs. -/
def Runtime (file : SourceFile) : ImportStmt → Prop := Occurs runtimeBlocks file.body

/-- The import runs and stands in no handler and no case. -/
def Visited (file : SourceFile) : ImportStmt → Prop := Occurs visitedBlocks file.body

/-- What the checker visits runs. -/
theorem mem_runtimeBlocks {node : PyStmt} {inner : List PyStmt} (h : inner ∈ visitedBlocks node) :
    inner ∈ runtimeBlocks node := by
  cases node with
  | try_ star body handlers orelse finalbody =>
      simp only [visitedBlocks, List.mem_cons, List.not_mem_nil, or_false] at h
      simp only [runtimeBlocks, List.cons_append, List.mem_cons, List.mem_append,
        List.not_mem_nil, or_false]
      tauto
  | match_ cases => cases h
  | import_ stmt => exact h
  | block kind body => exact h
  | loop kind body orelse => exact h
  | if_ test body orelse => exact h
  | simple => exact h

/-- More blocks, more imports. -/
theorem Occurs.mono {blocks blocks' : PyStmt → List (List PyStmt)}
    (hblocks : ∀ node, ∀ inner ∈ blocks node, inner ∈ blocks' node) {body : List PyStmt}
    {stmt : ImportStmt} (h : Occurs blocks body stmt) : Occurs blocks' body stmt := by
  induction h with
  | here h => exact .here h
  | inside hnode hinner _ ih => exact .inside hnode (hblocks _ _ hinner) ih

/-- What the checker visits is imported when the file runs. -/
theorem Visited.runtime {file : SourceFile} {stmt : ImportStmt} (h : Visited file stmt) :
    Runtime file stmt := Occurs.mono (fun _ _ => mem_runtimeBlocks) h

/-- An import stands at the head or after it. -/
theorem occurs_cons_iff {blocks : PyStmt → List (List PyStmt)} {node : PyStmt}
    {body : List PyStmt} {stmt : ImportStmt} :
    Occurs blocks (node :: body) stmt ↔
      (node = .import_ stmt ∨ ∃ inner ∈ blocks node, Occurs blocks inner stmt) ∨
        Occurs blocks body stmt := by
  constructor
  · rintro (h | ⟨hnode, hinner, h⟩)
    · rcases List.mem_cons.mp h with h | h
      · exact .inl (.inl h.symm)
      · exact .inr (.here h)
    · rcases List.mem_cons.mp hnode with rfl | hnode
      · exact .inl (.inr ⟨_, hinner, h⟩)
      · exact .inr (.inside hnode hinner h)
  · rintro ((rfl | ⟨inner, hinner, h⟩) | h)
    · exact .here List.mem_cons_self
    · exact .inside List.mem_cons_self hinner h
    · cases h with
      | here h => exact .here (List.mem_cons_of_mem _ h)
      | inside hnode hinner h => exact .inside (List.mem_cons_of_mem _ hnode) hinner h

/-- There is none in an empty block. -/
theorem not_occurs_nil {blocks : PyStmt → List (List PyStmt)} {stmt : ImportStmt} :
    ¬ Occurs blocks [] stmt := by
  rintro (h | ⟨h, -, -⟩)
  · cases h
  · cases h

/-! ## What the walk finds -/

/-- What is found at an import statement. -/
theorem mem_foundAt {typeChecking : Bool} {stmt : ImportStmt} {entry : Found} :
    entry ∈ foundAt typeChecking stmt ↔
      entry.stmt = stmt ∧ entry.imported ∈ writtenModules stmt ∧
        entry.typeChecking = typeChecking := by
  obtain ⟨imported, stmt', typeChecking'⟩ := entry
  cases stmt with
  | import_ lineno colOffset names =>
      simp only [foundAt, writtenModules, List.mem_map, Found.mk.injEq]
      constructor
      · rintro ⟨name, hname, rfl, rfl, rfl⟩
        exact ⟨rfl, hname, rfl⟩
      · rintro ⟨rfl, hname, rfl⟩
        exact ⟨imported, hname, rfl, rfl, rfl⟩
  | importFrom lineno colOffset module names level =>
      cases module with
      | none => simp [foundAt, writtenModules]
      | some module =>
          by_cases hempty : module = []
          · simp [foundAt, writtenModules, hempty]
          · simp only [foundAt, writtenModules, if_neg hempty, List.mem_singleton, Found.mk.injEq]
            tauto

mutual

/-- Nothing below a block for type checking runs. -/
theorem visit_true_typeChecking : ∀ {nodes : List PyStmt} {entry : Found},
    entry ∈ visit true nodes → entry.typeChecking = true
  | [], _, h => by simp [visit] at h
  | node :: nodes, entry, h => by
      rw [visit, List.mem_append] at h
      exact h.elim visitNode_true_typeChecking visit_true_typeChecking

/-- Under `TYPE_CHECKING` everything is marked so, by recursion on the statement. -/
theorem visitNode_true_typeChecking : ∀ {node : PyStmt} {entry : Found},
    entry ∈ visitNode true node → entry.typeChecking = true
  | .import_ stmt, entry, h => (mem_foundAt.mp h).2.2
  | .if_ test body orelse, entry, h => by
      have hboth : entry ∈ visit true body ++ visit true orelse := by
        rw [visitNode] at h
        split at h <;> exact h
      exact (List.mem_append.mp hboth).elim visit_true_typeChecking visit_true_typeChecking
  | .block _ body, entry, h => by
      rw [visitNode] at h
      exact visit_true_typeChecking h
  | .loop _ body orelse, entry, h => by
      rw [visitNode, List.mem_append] at h
      exact h.elim visit_true_typeChecking visit_true_typeChecking
  | .try_ _ body _ orelse finalbody, entry, h => by
      rw [visitNode, List.mem_append, List.mem_append] at h
      exact h.elim (fun h => h.elim visit_true_typeChecking visit_true_typeChecking)
        visit_true_typeChecking
  | .match_ _, entry, h => by simp [visitNode] at h
  | .simple, entry, h => by simp [visitNode] at h

end

mutual

/-- **What the walk finds that runs**: the written modules of the statements that it comes to. -/
theorem mem_visit : ∀ {nodes : List PyStmt} {entry : Found}, entry.typeChecking = false →
    (entry ∈ visit false nodes ↔
      Occurs visitedBlocks nodes entry.stmt ∧ entry.imported ∈ writtenModules entry.stmt)
  | [], entry, _ => by simp [visit, not_occurs_nil]
  | node :: nodes, entry, h => by
      rw [visit, List.mem_append, mem_visitNode h, mem_visit h, occurs_cons_iff, ← or_and_right]

/-- **What is found outside of it**: the imports that the checker visits, by recursion on the
statement. -/
theorem mem_visitNode : ∀ {node : PyStmt} {entry : Found}, entry.typeChecking = false →
    (entry ∈ visitNode false node ↔
      (node = .import_ entry.stmt ∨ ∃ inner ∈ visitedBlocks node,
        Occurs visitedBlocks inner entry.stmt) ∧ entry.imported ∈ writtenModules entry.stmt)
  | .import_ stmt, entry, h => by
      rw [visitNode, mem_foundAt]
      constructor
      · rintro ⟨rfl, hmem, -⟩
        exact ⟨.inl rfl, hmem⟩
      · rintro ⟨heq | ⟨inner, hinner, -⟩, hmem⟩
        · cases heq
          exact ⟨rfl, hmem, h⟩
        · cases hinner
  | .if_ test body orelse, entry, h => by
      have hnot : entry ∉ visit true body := by
        intro hmem
        rw [visit_true_typeChecking hmem] at h
        cases h
      rw [visitNode]
      by_cases htest : isTypeCheckingBlock test = true
      · rw [if_pos htest, List.mem_append, mem_visit h]
        simp [visitedBlocks, runtimeBlocks, htest, hnot]
      · rw [if_neg htest, List.mem_append, mem_visit h, mem_visit h]
        simp only [visitedBlocks, runtimeBlocks, if_neg htest]
        simp [or_and_right, exists_or]
  | .block kind body, entry, h => by
      rw [visitNode_eq_visit_childStatements (.block kind body) nofun nofun, childStatements,
        mem_visit h]
      simp [visitedBlocks, runtimeBlocks]
  | .loop kind body orelse, entry, h => by
      rw [visitNode_eq_visit_childStatements (.loop kind body orelse) nofun nofun, childStatements,
        visit_append, List.mem_append, mem_visit h, mem_visit h]
      simp [visitedBlocks, runtimeBlocks, or_and_right, exists_or]
  | .try_ star body handlers orelse finalbody, entry, h => by
      rw [visitNode_eq_visit_childStatements (.try_ star body handlers orelse finalbody) nofun nofun,
        childStatements, visit_append, visit_append, List.mem_append, List.mem_append, mem_visit h,
        mem_visit h, mem_visit h]
      simp [visitedBlocks, or_and_right, or_assoc, exists_or]
  | .match_ _, entry, h => by simp [visitNode, visitedBlocks]
  | .simple, entry, h => by simp [visitNode, visitedBlocks, runtimeBlocks]

end

/-! ## What is reported -/

/-- The files of a package, with distinct paths. -/
structure Package where
  files : List SourceFile
  distinct : (files.map SourceFile.path).Nodup

/-- The check reports the statement of the file. -/
def Package.Reports (package : Package) (file : SourceFile) (stmt : ImportStmt) : Prop :=
  ∃ v ∈ (check package.files).1, v.path = file.path ∧ v.stmt = stmt

/-- A violation is a visited import of a forbidden module. -/
theorem mem_checkFile {file : SourceFile} {v : Violation} :
    v ∈ (checkFile file).1 ↔
      v.path = file.path ∧ v.module = moduleName file.parts ∧ Visited file v.stmt ∧
        v.imported ∈ writtenModules v.stmt ∧
        ∃ target ∈ forbiddenFor (moduleName file.parts), matchesModule v.imported target = true := by
  unfold checkFile
  dsimp only
  by_cases hempty : forbiddenFor (moduleName file.parts) = []
  · simp [hempty]
  · rw [if_neg hempty]
    obtain ⟨path, stmt, module, imported⟩ := v
    simp only [List.mem_map, List.mem_filter, Bool.not_eq_true', List.any_eq_true,
      Violation.mk.injEq]
    constructor
    · rintro ⟨entry, ⟨⟨hmem, htarget⟩, htc⟩, rfl, rfl, rfl, rfl⟩
      obtain ⟨hvisited, hwritten⟩ := (mem_visit htc).mp hmem
      exact ⟨rfl, rfl, hvisited, hwritten, htarget⟩
    · rintro ⟨rfl, rfl, hvisited, hwritten, htarget⟩
      exact ⟨⟨imported, stmt, false⟩, ⟨⟨(mem_visit rfl).mpr ⟨hvisited, hwritten⟩, htarget⟩, rfl⟩,
        rfl, rfl, rfl, rfl⟩

/-- **What the check reports**: the statements that it comes to and that spell a forbidden module
out. -/
theorem reports_iff {package : Package} {file : SourceFile} (hfile : file ∈ package.files)
    {stmt : ImportStmt} :
    package.Reports file stmt ↔ Visited file stmt ∧ SpellsForbidden file stmt := by
  unfold Package.Reports check SpellsForbidden Forbidden
  constructor
  · rintro ⟨v, hv, hpath, rfl⟩
    obtain ⟨result, hresult, hmem⟩ := List.mem_flatMap.mp hv
    obtain ⟨file', hfile', rfl⟩ := List.mem_map.mp hresult
    obtain ⟨hpath', -, hvisited, hwritten, htarget⟩ := mem_checkFile.mp hmem
    obtain rfl : file' = file :=
      List.inj_on_of_nodup_map package.distinct hfile' hfile (hpath'.symm.trans hpath)
    exact ⟨hvisited, v.imported, hwritten, htarget⟩
  · rintro ⟨hvisited, imported, hwritten, htarget⟩
    refine ⟨⟨file.path, stmt, moduleName file.parts, imported⟩, ?_, rfl, rfl⟩
    refine List.mem_flatMap.mpr ⟨_, List.mem_map_of_mem hfile, ?_⟩
    exact mem_checkFile.mpr ⟨rfl, rfl, hvisited, hwritten, htarget⟩

/-- A statement without a relative name imports what it spells out. -/
theorem ImportsForbidden.of_spelled {file : SourceFile} {stmt : ImportStmt}
    (habsolute : ¬ Relative stmt) (h : SpellsForbidden file stmt) : ImportsForbidden file stmt := by
  obtain ⟨module, hmem, htarget⟩ := h
  refine ⟨module, ?_, htarget⟩
  cases stmt with
  | import_ lineno colOffset names => exact hmem
  | importFrom lineno colOffset module' names level =>
      obtain rfl : level = 0 := not_not.mp habsolute
      cases module' with
      | none => cases hmem
      | some module' =>
          simp only [writtenModules] at hmem
          split at hmem
          · cases hmem
          · obtain rfl := List.mem_singleton.mp hmem
            exact List.mem_cons_self

/-- **When the check is right about a file**: every import that runs and leads into a forbidden
module is reported, and nothing else is. -/
theorem check_complete_iff (package : Package) (file : SourceFile) (hfile : file ∈ package.files) :
    ((∀ stmt, Runtime file stmt → ImportsForbidden file stmt → package.Reports file stmt) ∧
      ∀ stmt, package.Reports file stmt → Runtime file stmt ∧ ImportsForbidden file stmt) ↔
      (∀ stmt, Runtime file stmt → ImportsForbidden file stmt →
        Visited file stmt ∧ SpellsForbidden file stmt) ∧
      ∀ stmt, Visited file stmt → Relative stmt → SpellsForbidden file stmt →
        ImportsForbidden file stmt := by
  constructor
  · rintro ⟨hcomplete, hsound⟩
    refine ⟨fun stmt hruntime himports => ?_, fun stmt hvisited _ hspells => ?_⟩
    · exact (reports_iff hfile).mp (hcomplete stmt hruntime himports)
    · exact (hsound stmt ((reports_iff hfile).mpr ⟨hvisited, hspells⟩)).2
  · rintro ⟨hseen, hrelative⟩
    refine ⟨fun stmt hruntime himports => ?_, fun stmt hreports => ?_⟩
    · exact (reports_iff hfile).mpr (hseen stmt hruntime himports)
    · obtain ⟨hvisited, hspells⟩ := (reports_iff hfile).mp hreports
      refine ⟨hvisited.runtime, ?_⟩
      by_cases hrel : Relative stmt
      · exact hrelative stmt hvisited hrel hspells
      · exact ImportsForbidden.of_spelled hrel hspells

/-- A file of the domain layer that falls back on another module when an import fails. -/
def fallbackFile (fallback : Text) : SourceFile where
  path := "app/domain/x.py".toList
  parts := ["app".toList, "domain".toList, "x".toList]
  body := [.try_ false [.simple]
    [[.import_ (.import_ 4 4 [fallback])]] [] []]

def fallbackPackage (fallback : Text) : Package where
  files := [fallbackFile fallback]
  distinct := List.nodup_singleton _

/-- An import in a handler is missed. -/
theorem check_complete_fallback :
    ((∀ stmt, Runtime (fallbackFile "json".toList) stmt →
        ImportsForbidden (fallbackFile "json".toList) stmt →
          (fallbackPackage "json".toList).Reports (fallbackFile "json".toList) stmt) ∧
      ∀ stmt, (fallbackPackage "json".toList).Reports (fallbackFile "json".toList) stmt →
        Runtime (fallbackFile "json".toList) stmt ∧
          ImportsForbidden (fallbackFile "json".toList) stmt) ↔
      (∀ stmt, Runtime (fallbackFile "json".toList) stmt →
        ImportsForbidden (fallbackFile "json".toList) stmt →
          Visited (fallbackFile "json".toList) stmt ∧
            SpellsForbidden (fallbackFile "json".toList) stmt) ∧
      ∀ stmt, Visited (fallbackFile "json".toList) stmt → Relative stmt →
        SpellsForbidden (fallbackFile "json".toList) stmt →
          ImportsForbidden (fallbackFile "json".toList) stmt :=
  check_complete_iff (fallbackPackage "json".toList) (fallbackFile "json".toList)
    (List.mem_singleton_self _)

/-- An import of the infrastructure in an `except` handler of the domain is not reported. -/
theorem handler_import_missed :
    ¬ ∀ (package : Package) (file : SourceFile), file ∈ package.files →
      (∀ stmt, Runtime file stmt → ImportsForbidden file stmt → package.Reports file stmt) ∧
        ∀ stmt, package.Reports file stmt → Runtime file stmt ∧ ImportsForbidden file stmt := by
  intro hall
  have hmem : fallbackFile "app.infrastructure".toList ∈
      (fallbackPackage "app.infrastructure".toList).files := List.mem_singleton_self _
  have hruntime : Runtime (fallbackFile "app.infrastructure".toList)
      (.import_ 4 4 ["app.infrastructure".toList]) := by
    refine .inside List.mem_cons_self (List.mem_cons_of_mem _ List.mem_cons_self) ?_
    exact .here List.mem_cons_self
  have himports : ImportsForbidden (fallbackFile "app.infrastructure".toList)
      (.import_ 4 4 ["app.infrastructure".toList]) := by
    refine ⟨"app.infrastructure".toList, List.mem_singleton_self _, "app.infrastructure".toList,
      ?_, ?_⟩
    · decide +kernel
    · decide +kernel
  have hreports := (hall _ _ hmem).1 _ hruntime himports
  obtain ⟨hvisited, -⟩ := (reports_iff hmem).mp hreports
  -- the walk comes to the body of the `try` and to nothing else
  rcases occurs_cons_iff.mp hvisited with (heq | ⟨inner, hinner, hoccurs⟩) | hnil
  · cases heq
  · simp only [visitedBlocks, List.mem_cons, List.not_mem_nil, or_false] at hinner
    rcases hinner with rfl | rfl | rfl
    · rcases occurs_cons_iff.mp hoccurs with (heq | ⟨inner, hinner, -⟩) | hnil
      · cases heq
      · cases hinner
      · exact not_occurs_nil hnil
    · exact not_occurs_nil hoccurs
    · exact not_occurs_nil hoccurs
  · exact not_occurs_nil hnil

end LayerImports

end SyncBack
