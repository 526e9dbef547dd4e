import DocTree.Store.Lookup
import DocTree.Workspace

/-!
# Reports

What a resolution pass did, module by module. A module is listed only if it had undocumented
symbols. Each of these ends up in one of five lists, unless it could not be converted.
-/

namespace DocTree

/-- What happened to one module. -/
structure ModuleReport where
  module : NodeId
  /-- Symbols bound to nodes that were documented already. -/
  aliased : List (SymbolId × NodeId) := []
  /-- Declarations created. -/
  synthesized : List NodeId := []
  /-- Default exports, which are left alone. -/
  skipped : List SymbolId := []
  /-- Symbols left alone because nothing may be created. -/
  unresolved : List SymbolId := []
  /-- Symbols whose name belongs to a node that no module holds directly. -/
  dropped : List SymbolId := []
  /-- How often the module was searched with success. -/
  rounds : Nat := 0
  /-- The namespace created, if it holds anything. -/
  created : Option NodeId := none
  deriving Inhabited

namespace ModuleReport

def changed (r : ModuleReport) : Bool := !r.aliased.isEmpty || !r.synthesized.isEmpty

def leftCount (r : ModuleReport) : Nat := r.unresolved.length + r.skipped.length + r.dropped.length

end ModuleReport

/-- What a resolution pass did. -/
abbrev Report := List ModuleReport

namespace Report

/-- How many symbols were bound to nodes that were documented already. -/
def aliasedCount (r : Report) : Nat := (r.map (·.aliased.length)).foldl (· + ·) 0

def synthesizedCount (r : Report) : Nat := (r.map (·.synthesized.length)).foldl (· + ·) 0

def changed (r : Report) : Bool := r.any ModuleReport.changed

def summaryLine (s : Store) (m : ModuleReport) : String :=
  (s.node m.module).name.text ++ ": " ++ toString m.aliased.length ++ " aliased, "
    ++ toString m.synthesized.length ++ " synthesized, " ++ toString m.leftCount
    ++ " left unresolved (" ++ toString m.rounds ++ " round" ++ (if m.rounds = 1 then "" else "s")
    ++ ")"

def nothingMissing : String := "no missing exports"

def summary (r : Report) (s : Store) : String :=
  if r.isEmpty then nothingMissing else "\n".intercalate (r.map (summaryLine s))

def forModule (r : Report) (s : Store) (name : Value) : Option ModuleReport :=
  r.find? fun m => (s.node m.module).name.same name

end Report

end DocTree
