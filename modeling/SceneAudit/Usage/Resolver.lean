import SceneAudit.Files.Tree
import SceneAudit.Script.Outline
import SceneAudit.Usage.Policy

/-! # Resolving components against scripts

A resolver keeps the symbol table of each script that it has looked at; a table once stored for a
path stays. Whether a script exists is looked up anew each time.
-/

namespace SceneAudit

open Script

namespace SymbolTable

def ofDeclaration (d : Declaration) : SymbolTable :=
  ⟨true, (d.memberNames.map MemberName.normalize).eraseDups⟩

def ofDeclarations (baseTypes : List Text) (types : List Declaration) : SymbolTable :=
  match Declaration.primary? baseTypes types with
  | some d => ofDeclaration d
  | none => empty

end SymbolTable

/-- How components are judged, and the tables stored so far by path. -/
structure Resolver where
  policy : UsagePolicy
  baseTypes : List Text
  tables : List (Text × SymbolTable)
  deriving Repr

namespace Resolver

def new (policy : UsagePolicy) (baseTypes : List Text) : Resolver :=
  ⟨policy, baseTypes, []⟩

def cached? (resolver : Resolver) (path : Text) : Option SymbolTable :=
  (resolver.tables.find? fun entry => Path.same entry.1 path).map Prod.snd

/-- The table of the script at a path as it stands now. A script that cannot be read has the empty
table. -/
def readTable (resolver : Resolver) (tree : FileTree) (path : Text) : SymbolTable :=
  match tree.readText path with
  | .ok text => .ofDeclarations resolver.baseTypes (Declaration.ofText text)
  | .error _ => .empty

/-- Store a table for a path unless there is one, and answer the one that is stored. -/
def store (resolver : Resolver) (path : Text) (table : SymbolTable) : Resolver × SymbolTable :=
  match resolver.cached? path with
  | some stored => (resolver, stored)
  | none => ({ resolver with tables := (path, table) :: resolver.tables }, table)

/-- The table for a path, read if none is stored. -/
def symbolsFor (resolver : Resolver) (tree : FileTree) (path : Text) : Resolver × SymbolTable :=
  match resolver.cached? path with
  | some stored => (resolver, stored)
  | none => resolver.store path (resolver.readTable tree path)

/-- Whether a component with these serialized fields uses the script at a path. A script that does
not exist is not used, and nothing is stored for it. -/
def isUsed (resolver : Resolver) (tree : FileTree) (path : Text) (fields : List Text) :
    Resolver × Bool :=
  if tree.isFile path then
    let (resolver, table) := resolver.symbolsFor tree path
    (resolver, table.decide resolver.policy fields)
  else (resolver, false)

end Resolver

end SceneAudit
