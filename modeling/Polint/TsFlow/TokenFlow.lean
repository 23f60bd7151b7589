import Polint.TsObjects.Extract

/-!
# Flows of function tokens

Functions that are passed as arguments flow to the calls of the parameters they
are passed for.  The parameters of a function are listed by their names, and the
positions in that list are compared with the positions of the arguments.
-/

namespace Polint
namespace TsFlow

open TsObjects (FunctionType MethodDefinition NodeId OxcSpan methodName)

/-! ## Parsed files -/

/-- An expression as far as it is read.  A function expression has the callees
of the calls it returns, a wrapper is a pair of parentheses or a type. -/
inductive Expression
  | identifier (name : String)
  | wrapped (expression : Expression)
  | functionExpression (span : OxcSpan) (returnedCallees : List Expression)
  | other

def Expression.identifierName : Expression → Option String
  | identifier name => some name
  | wrapped expression => expression.identifierName
  | _ => none

/-- A name, a pattern with a default, or one that takes its value apart. -/
inductive BindingPattern
  | bindingIdentifier (name : String)
  | assignmentPattern (left : BindingPattern)
  | destructuring
  deriving DecidableEq

def BindingPattern.identifierName : BindingPattern → Option String
  | bindingIdentifier name => some name
  | assignmentPattern left => left.identifierName
  | destructuring => none

/-- Kinds of nodes.  A spread argument is another expression. -/
inductive AstKind
  | function
      (id : Option String)
      (type : FunctionType)
      (params : List BindingPattern)
  | arrowFunctionExpression (params : List BindingPattern)
  | methodDefinition (method : MethodDefinition)
  | staticBlock
  | callExpression (callee : Expression) (arguments : List Expression)
  | variableDeclarator
      (id : BindingPattern)
      (init : Option Expression)
      (initSpan : OxcSpan)
  | returnStatement (argument : Option Expression)
  | other

/-- A node with its parent, which the root is itself, and the normalized span of
a call site. -/
structure AstNode where
  kind : AstKind
  span : OxcSpan
  parent : NodeId
  callsiteSpan : Option OxcSpan

/-- What tells the inventory rows of a file apart. -/
structure InventoryKey where
  row : String
  span : OxcSpan
  displayName : Option String
  deriving DecidableEq

structure FunctionRow where
  span : OxcSpan
  stableKey : InventoryKey
  displayName : Option String

structure CallsiteRow where
  span : OxcSpan
  stableKey : InventoryKey

structure TsInventoryOutput where
  functions : List FunctionRow
  callsites : List CallsiteRow

section Nodes

variable (nodes : List AstNode)

def entries : List (NodeId × AstNode) :=
  nodes.zipIdx.map fun (node, id) => (id, node)

def parentKind (id : NodeId) : AstKind :=
  ((nodes[id]?.bind fun node => nodes[node.parent]?).map (·.kind)).getD .other

def variableDeclaratorName (id : NodeId) : Option String :=
  match parentKind nodes id with
  | .variableDeclarator (.bindingIdentifier name) _ _ => some name
  | _ => none

def functionDisplayName (id : NodeId) : AstKind → Option String
  | .function name _ _ => name.or (variableDeclaratorName nodes id)
  | .arrowFunctionExpression _ => variableDeclaratorName nodes id
  | .methodDefinition method => methodName method
  | .staticBlock => some "static"
  | _ => none

def isMethodValue (id : NodeId) : Bool :=
  match parentKind nodes id with
  | .methodDefinition _ => true
  | _ => false

/-- The functions of the inventory.  A method's value is not listed again. -/
def isInventoryFunction (id : NodeId) : AstKind → Bool
  | .function .. => !isMethodValue nodes id
  | .arrowFunctionExpression _ | .methodDefinition _ | .staticBlock => true
  | _ => false

def functionRow (entry : NodeId × AstNode) : FunctionRow :=
  let displayName := functionDisplayName nodes entry.1 entry.2.kind
  { span := entry.2.span
    stableKey := ⟨"ts_inventory_function", entry.2.span, displayName⟩
    displayName := displayName }

def callsiteRow (span : OxcSpan) : CallsiteRow :=
  ⟨span, "ts_inventory_callsite", span, none⟩

def extractTsInventory : TsInventoryOutput where
  functions := ((entries nodes).filter fun entry =>
    isInventoryFunction nodes entry.1 entry.2.kind).map (functionRow nodes)
  callsites := (nodes.filterMap (·.callsiteSpan)).map callsiteRow

/-- The innermost function around a node; parents are numbered before their
children. -/
def enclosingFunctionNode (id : NodeId) : Option NodeId :=
  match nodes[id]? with
  | none => none
  | some node =>
      if _h : node.parent < id then
        match nodes[node.parent]?.map fun above : AstNode => above.kind with
        | some (.function ..) | some (.arrowFunctionExpression _)
        | some (.methodDefinition _) => some node.parent
        | _ => enclosingFunctionNode node.parent
      else none

end Nodes

/-! ## Names with one value -/

/-- Note a value for a name; a second one makes the name useless. -/
def insertUnique
    {κ ν : Type}
    [DecidableEq κ]
    [DecidableEq ν]
    (table : κ → Option (Option ν))
    (entry : κ × ν) : κ → Option (Option ν) :=
  fun key =>
    if key = entry.1 then
      match table key with
      | none => some (some entry.2)
      | some existing =>
          if existing = some entry.2 then some existing else some none
    else table key

def uniqueLookup
    {κ ν : Type}
    [DecidableEq κ]
    [DecidableEq ν]
    (rows : List (κ × ν))
    (key : κ) : Option ν :=
  (rows.foldl insertUnique fun _ => none) key |>.join

/-! ## The index -/

inductive TsTokenSourceFlowKind
  | parameterArgument
  | returnValue
  deriving DecidableEq

/-- A flow.  Its evidence is a call site or the name of a variable. -/
structure TsTokenSourceFlow where
  source : InventoryKey
  callsite : InventoryKey
  kind : TsTokenSourceFlowKind
  evidence : InventoryKey ⊕ String
  deriving DecidableEq

section Index

variable (inventory : TsInventoryOutput) (nodes : List AstNode)

def functionBySpan (span : OxcSpan) : Option FunctionRow :=
  (inventory.functions.filter fun row => row.span = span).getLast?

def callsiteKeyBySpan (span : OxcSpan) : Option InventoryKey :=
  (inventory.callsites.filter fun row => row.span = span).getLast?.map
    (·.stableKey)

def functionReferenceForKind (node : AstNode) : Option FunctionRow :=
  match node.kind with
  | .function .. | .arrowFunctionExpression _ | .methodDefinition _ =>
      functionBySpan inventory node.span
  | _ => none

def callsiteKeyForKind (node : AstNode) : Option InventoryKey :=
  node.callsiteSpan.bind (callsiteKeyBySpan inventory)

def uniqueFunctionKeyByName (name : String) : Option InventoryKey :=
  uniqueLookup (inventory.functions.filterMap fun row =>
    row.displayName.map fun name => (name, row.stableKey)) name

def uniqueFunctionNodeByName (name : String) : Option NodeId :=
  uniqueLookup ((entries nodes).filterMap fun entry =>
    ((functionReferenceForKind inventory entry.2).bind (·.displayName)).map
      fun name => (name, entry.1)) name

def functionParameterNames : AstKind → Option (List String)
  | .function _ _ params | .arrowFunctionExpression params =>
      some (params.filterMap BindingPattern.identifierName)
  | _ => none

def parameterNameByFunction (id : NodeId) : Option (List String) := do
  let node ← nodes[id]?
  let _ ← functionReferenceForKind inventory node
  functionParameterNames node.kind

/-- A call of a parameter: the function, the position of the parameter and the
key of the call. -/
def parameterCall (entry : NodeId × AstNode) :
    Option (NodeId × Nat × InventoryKey) :=
  match entry.2.kind with
  | .callExpression callee _ => do
      let calleeName ← callee.identifierName
      let enclosing ← enclosingFunctionNode nodes entry.1
      let names ← parameterNameByFunction inventory nodes enclosing
      let position ← names.idxOf? calleeName
      let callsiteKey ← callsiteKeyForKind inventory entry.2
      return (enclosing, position, callsiteKey)
  | _ => none

def parameterCalls : List (NodeId × Nat × InventoryKey) :=
  (entries nodes).filterMap (parameterCall inventory nodes)

/-! ### Returned functions -/

def localAliasTargets : List ((NodeId × String) × InventoryKey) :=
  (entries nodes).filterMap fun entry =>
    match entry.2.kind with
    | .variableDeclarator id (some init) _ => do
        let variableName ← id.identifierName
        let targetName ← init.identifierName
        let enclosing ← enclosingFunctionNode nodes entry.1
        let key ← uniqueFunctionKeyByName inventory targetName
        return ((enclosing, variableName), key)
    | _ => none

def lookupFunctionOrLocalAlias
    (enclosing : NodeId)
    (name : String) : Option InventoryKey :=
  (uniqueLookup (localAliasTargets inventory nodes) (enclosing, name)).or
    (uniqueFunctionKeyByName inventory name)

def functionKeyFromReturnArgument
    (enclosing : NodeId) : Expression → Option InventoryKey
  | .identifier name => lookupFunctionOrLocalAlias inventory nodes enclosing name
  | .functionExpression span returnedCallees =>
      (returnedCallees.findSome? fun callee =>
        callee.identifierName.bind
          (lookupFunctionOrLocalAlias inventory nodes enclosing)).or
        ((functionBySpan inventory span).map (·.stableKey))
  | .wrapped expression => functionKeyFromReturnArgument enclosing expression
  | .other => none

def returnedFunctionKeys : List (NodeId × InventoryKey) :=
  (entries nodes).filterMap fun entry =>
    match entry.2.kind with
    | .returnStatement (some argument) => do
        let enclosing ← enclosingFunctionNode nodes entry.1
        let key ← functionKeyFromReturnArgument inventory nodes enclosing
          argument
        return (enclosing, key)
    | _ => none

def variableDeclaratorNameForCall (entry : NodeId × AstNode) : Option String :=
  match parentKind nodes entry.1 with
  | .variableDeclarator id (some _) initSpan =>
      if initSpan = entry.2.span then id.identifierName else none
  | _ => none

def localReturnTokens : List ((NodeId × String) × InventoryKey) :=
  (entries nodes).filterMap fun entry =>
    match entry.2.kind with
    | .callExpression callee _ => do
        let variableName ← variableDeclaratorNameForCall nodes entry
        let calleeName ← callee.identifierName
        let calleeFunction ← uniqueFunctionNodeByName inventory nodes calleeName
        let enclosing ← enclosingFunctionNode nodes entry.1
        let key ← uniqueLookup (returnedFunctionKeys inventory nodes)
          calleeFunction
        return ((enclosing, variableName), key)
    | _ => none

/-! ### Flows -/

def parameterArgumentFlows
    (calleeName : String)
    (arguments : List Expression)
    (sourceCallsiteKey : InventoryKey) : List TsTokenSourceFlow :=
  match uniqueFunctionNodeByName inventory nodes calleeName with
  | none => []
  | some calleeFunction =>
      arguments.zipIdx.flatMap fun (argument, position) =>
        match argument.identifierName.bind
            (uniqueFunctionKeyByName inventory) with
        | none => []
        | some functionKey =>
            ((parameterCalls inventory nodes).filter fun call =>
              call.1 = calleeFunction ∧ call.2.1 = position).map fun call =>
                { source := functionKey
                  callsite := call.2.2
                  kind := .parameterArgument
                  evidence := .inl sourceCallsiteKey }

def returnValueFlow
    (id : NodeId)
    (calleeName : String)
    (callsiteKey : InventoryKey) : List TsTokenSourceFlow :=
  match (enclosingFunctionNode nodes id).bind fun enclosing =>
      uniqueLookup (localReturnTokens inventory nodes)
        (enclosing, calleeName) with
  | none => []
  | some key =>
      [{ source := key
         callsite := callsiteKey
         kind := .returnValue
         evidence := .inr calleeName }]

def callFlows (entry : NodeId × AstNode) : List TsTokenSourceFlow :=
  match entry.2.kind with
  | .callExpression callee arguments =>
      match callsiteKeyForKind inventory entry.2, callee.identifierName with
      | some callsiteKey, some calleeName =>
          parameterArgumentFlows inventory nodes calleeName arguments
              callsiteKey ++
            returnValueFlow inventory nodes entry.1 calleeName callsiteKey
      | _, _ => []
  | _ => []

/-- The flows in the order of their texts, each once. -/
def collectFlows
    {κ : Type}
    [LinearOrder κ]
    (texts : TsTokenSourceFlow → κ) : List TsTokenSourceFlow :=
  Ranking.sortByKey texts ((entries nodes).flatMap (callFlows inventory nodes)).dedup

end Index

/-- The flows of a file, with its inventory if there is none yet. -/
def collectTsTokenSourceFlows
    {κ : Type}
    [LinearOrder κ]
    (texts : TsTokenSourceFlow → κ)
    (nodes : List AstNode)
    (inventory : Option TsInventoryOutput) : List TsTokenSourceFlow :=
  collectFlows (inventory.getD (extractTsInventory nodes)) nodes texts

/-! ## What flows -/

/-- A node is a function declaration. -/
def IsDeclaration
    (nodes : List AstNode)
    (id : NodeId)
    (name : String)
    (params : List BindingPattern) : Prop :=
  ∃ node, nodes[id]? = some node ∧
    node.kind = .function (some name) .functionDeclaration params

/-- A node is a call of an identifier. -/
def IsCall
    (nodes : List AstNode)
    (id : NodeId)
    (callee : String)
    (arguments : List Expression) : Prop :=
  ∃ node expression, nodes[id]? = some node ∧
    node.kind = .callExpression expression arguments ∧
      expression.identifierName = some callee

/-- A parsed file: calls have a normalized span, and neither functions nor call
sites share a span. -/
structure TsFile where
  nodes : List AstNode
  callsites : ∀ node ∈ nodes, ∀ callee arguments,
    node.kind = .callExpression callee arguments → node.callsiteSpan.isSome
  distinctSpans : ∀ (first second : NodeId) (node other : AstNode),
    nodes[first]? = some node → nodes[second]? = some other →
      isInventoryFunction nodes first node.kind = true →
        isInventoryFunction nodes second other.kind = true →
          node.span = other.span → first = second
  distinctCallsites : ∀ (first second : NodeId) (node other : AstNode) span,
    nodes[first]? = some node → nodes[second]? = some other →
      node.callsiteSpan = some span → other.callsiteSpan = some span →
        first = second

/-- A file whose functions are declarations.  They have different names, and so
have the parameters of each. -/
structure Declarations (nodes : List AstNode) : Prop where
  named : ∀ (id : NodeId) (node : AstNode), nodes[id]? = some node →
    isInventoryFunction nodes id node.kind = true →
      ∃ name params,
        node.kind = .function (some name) .functionDeclaration params
  distinctNames : ∀ first second name params others,
    IsDeclaration nodes first name params →
      IsDeclaration nodes second name others → first = second
  distinctParameters : ∀ id name params, IsDeclaration nodes id name params →
    (params.filterMap BindingPattern.identifierName).Nodup

/-- A call of the function with a name passes a function at a position. -/
def Passes
    (nodes : List AstNode)
    (source callee : String)
    (position : Nat) : Prop :=
  ∃ id arguments, IsCall nodes id callee arguments ∧
    arguments[position]?.bind Expression.identifierName = some source

/-- A node calls the parameter at a position of the innermost function around
it. -/
def CallsParameter
    (nodes : List AstNode)
    (callsite : NodeId)
    (function : String)
    (params : List BindingPattern)
    (position : Nat) : Prop :=
  ∃ id parameter arguments, IsCall nodes callsite parameter arguments ∧
    enclosingFunctionNode nodes callsite = some id ∧
      IsDeclaration nodes id function params ∧
        params[position]?.bind BindingPattern.identifierName = some parameter

/-- A function flows to a call of the parameter that it is passed for. -/
def FlowsTo (nodes : List AstNode) (source : String) (callsite : NodeId) : Prop :=
  ∃ function params position,
    CallsParameter nodes callsite function params position ∧
      Passes nodes source function position

def functionKey (nodes : List AstNode) (id : NodeId) : Option InventoryKey :=
  nodes[id]?.map fun node => (functionRow nodes (id, node)).stableKey

def callsiteKey (nodes : List AstNode) (id : NodeId) : Option InventoryKey :=
  (nodes[id]?.bind (·.callsiteSpan)).map fun span => (callsiteRow span).stableKey

/-- The flows of a file are those of the functions that are passed for called
parameters. -/
def FlowsMatched
    {κ : Type}
    [LinearOrder κ]
    (texts : TsTokenSourceFlow → κ)
    (nodes : List AstNode) : Prop :=
  ∀ source name params, IsDeclaration nodes source name params →
    ∀ callsite callee arguments, IsCall nodes callsite callee arguments →
      ((∃ flow ∈ collectTsTokenSourceFlows texts nodes none,
        flow.kind = .parameterArgument ∧
          functionKey nodes source = some flow.source ∧
            callsiteKey nodes callsite = some flow.callsite) ↔
        FlowsTo nodes name callsite)

/-- The position of a parameter among those that are not taken apart. -/
def namedPosition (params : List BindingPattern) (position : Nat) : Nat :=
  ((params.take position).filterMap BindingPattern.identifierName).length

/-- For every called parameter the same functions are passed at its position
and at the position it has if those taken apart are not counted. -/
def OffsetsAgree (nodes : List AstNode) : Prop :=
  ∀ callsite function params position,
    CallsParameter nodes callsite function params position →
      ∀ id source others, IsDeclaration nodes id source others →
        (Passes nodes source function position ↔
          Passes nodes source function (namedPosition params position))

/-! ## Tables -/

section Tables

variable {κ ν : Type} [DecidableEq κ] [DecidableEq ν]

theorem uniqueLookup_eq_some_iff
    {rows : List (κ × ν)}
    {key : κ}
    {value : ν} :
    uniqueLookup rows key = some value ↔
      (key, value) ∈ rows ∧ ∀ row ∈ rows, row.1 = key → row.2 = value := by
  have general (rows : List (κ × ν)) (table : κ → Option (Option ν)) :
      rows.foldl insertUnique table key = some (some value) ↔
        (table key = some (some value) ∨
          table key = none ∧ (key, value) ∈ rows) ∧
        ∀ row ∈ rows, row.1 = key → row.2 = value := by
    induction rows generalizing table with
    | nil => simp
    | cons first rest ih =>
        rw [List.foldl_cons, ih, insertUnique,
          List.forall_mem_cons, List.mem_cons]
        obtain ⟨firstKey, firstValue⟩ := first
        by_cases same : key = firstKey
        · subst same
          cases table key with
          | none => grind
          | some existing => grind
        · grind
  have whole := general rows fun _ => none
  rw [uniqueLookup, Option.join_eq_some_iff, whole]
  simp

theorem getLast?_eq_of_forall
    {α : Type}
    {rows : List α}
    (row : α)
    (mem : row ∈ rows)
    (only : ∀ other ∈ rows, other = row) : rows.getLast? = some row := by
  have filled : rows ≠ [] := List.ne_nil_of_mem mem
  rw [List.getLast?_eq_some_getLast filled,
    only _ (List.getLast_mem filled)]

end Tables

/-! ## Positions -/

section Positions

variable {params : List BindingPattern} {position : Nat} {name : String}

theorem getElem?_namedPosition
    (found : params[position]?.bind BindingPattern.identifierName = some name) :
    (params.filterMap BindingPattern.identifierName)[namedPosition params
      position]? = some name := by
  induction params generalizing position with
  | nil => simp at found
  | cons param params ih =>
      cases position with
      | zero =>
          have here : param.identifierName = some name := by simpa using found
          simp [namedPosition, List.filterMap_cons_some here]
      | succ position =>
          have later := ih (by simpa using found)
          cases own : param.identifierName with
          | none =>
              simpa [namedPosition, List.filterMap_cons_none own] using later
          | some other =>
              simpa [namedPosition, List.filterMap_cons_some own] using later

theorem exists_of_getElem?_filterMap
    {index : Nat}
    (found : (params.filterMap BindingPattern.identifierName)[index]? =
      some name) :
    ∃ position, namedPosition params position = index ∧
      params[position]?.bind BindingPattern.identifierName = some name := by
  induction params generalizing index with
  | nil => simp at found
  | cons param params ih =>
      cases own : param.identifierName with
      | none =>
          rw [List.filterMap_cons_none own] at found
          obtain ⟨position, same, named⟩ := ih found
          exact ⟨position + 1,
            by simpa [namedPosition, List.filterMap_cons_none own] using same,
            by simpa using named⟩
      | some other =>
          rw [List.filterMap_cons_some own] at found
          cases index with
          | zero =>
              exact ⟨0, rfl, by simpa [own] using found⟩
          | succ index =>
              obtain ⟨position, same, named⟩ :=
                ih (by simpa using found)
              exact ⟨position + 1,
                by simpa [namedPosition, List.filterMap_cons_some own] using same,
                by simpa using named⟩

/-- A later parameter comes after a named one. -/
theorem namedPosition_lt
    {later : Nat}
    (before : position < later)
    (named : params[position]?.bind BindingPattern.identifierName = some name) :
    namedPosition params position < namedPosition params later := by
  obtain ⟨param, stored, own⟩ := Option.bind_eq_some_iff.mp named
  have next : namedPosition params (position + 1) =
      namedPosition params position + 1 := by
    rw [namedPosition, List.take_add_one, stored, List.filterMap_append]
    simp [namedPosition, own]
  have kept : ((params.take (position + 1)).filterMap
      BindingPattern.identifierName).Sublist
        ((params.take later).filterMap BindingPattern.identifierName) :=
    (List.take_sublist_take_left before).filterMap _
  have bound := kept.length_le
  rw [← namedPosition, ← namedPosition, next] at bound
  exact bound

/-- A name is at one position of a list of different names. -/
theorem idxOf?_eq_some_iff
    {names : List String}
    (distinct : names.Nodup) :
    names.idxOf? name = some position ↔ names[position]? = some name := by
  rw [List.idxOf?_eq_some_iff]
  constructor
  · rintro ⟨inside, same, _⟩
    rw [List.getElem?_eq_getElem inside]
    exact congrArg some (by simpa using same)
  · intro found
    obtain ⟨inside, same⟩ := List.getElem?_eq_some_iff.mp found
    refine ⟨inside, by simpa using same, fun earlier before => ?_⟩
    rintro equal
    have earlierInside := before.trans inside
    have repeated : names[earlier] = names[position] :=
      (by simpa using equal : _ = name).trans same.symm
    exact before.ne (distinct.getElem_inj_iff.mp repeated)

end Positions

/-! ## Declarations in the tables -/

section File

variable {file : TsFile} {id : NodeId} {node : AstNode} {name : String}
  {params : List BindingPattern}

theorem mem_entries_iff
    {nodes : List AstNode} :
    (id, node) ∈ entries nodes ↔ nodes[id]? = some node := by
  rw [entries, List.mem_map]
  constructor
  · rintro ⟨⟨other, index⟩, mem, same⟩
    obtain ⟨rfl, rfl⟩ := Prod.mk.inj same
    exact List.mem_zipIdx_iff_getElem?.mp mem
  · intro stored
    exact ⟨(node, id), List.mem_zipIdx_iff_getElem?.mpr stored, rfl⟩

theorem Declarations.isMethodValue
    (declarations : Declarations file.nodes)
    (id : NodeId) : isMethodValue file.nodes id = false := by
  rw [TsFlow.isMethodValue]
  split
  · rename_i method above
    rw [parentKind] at above
    cases parent : file.nodes[id]?.bind fun node =>
        file.nodes[node.parent]? with
    | none => simp [parent] at above
    | some holder =>
        rw [parent] at above
        obtain ⟨node, _, stored⟩ := Option.bind_eq_some_iff.mp parent
        have kind : holder.kind = .methodDefinition method := above
        obtain ⟨_, _, declared⟩ := declarations.named _ holder stored (by
          rw [kind]
          rfl)
        rw [kind] at declared
        cases declared
  · rfl

theorem isInventoryFunction_of_declaration
    (declarations : Declarations file.nodes)
    (kind : node.kind = .function (some name) .functionDeclaration params) :
    isInventoryFunction file.nodes id node.kind = true := by
  rw [kind, TsFlow.isInventoryFunction, declarations.isMethodValue]
  rfl

/-- A function of the inventory is a declaration. -/
theorem exists_declaration_of_inventory
    {row : FunctionRow}
    (declarations : Declarations file.nodes)
    (listed : row ∈ (extractTsInventory file.nodes).functions) :
    ∃ id node name params, file.nodes[id]? = some node ∧
      node.kind = .function (some name) .functionDeclaration params ∧
        row = functionRow file.nodes (id, node) ∧
          row.displayName = some name := by
  obtain ⟨⟨id, node⟩, mem, rfl⟩ := List.mem_map.mp listed
  obtain ⟨entry, accepted⟩ := List.mem_filter.mp mem
  have stored := mem_entries_iff.mp entry
  obtain ⟨name, params, kind⟩ := declarations.named id node stored accepted
  refine ⟨id, node, name, params, stored, kind, rfl, ?_⟩
  simp [functionRow, kind, functionDisplayName]

theorem mem_inventory_of_declaration
    (declarations : Declarations file.nodes)
    (stored : file.nodes[id]? = some node)
    (kind : node.kind = .function (some name) .functionDeclaration params) :
    functionRow file.nodes (id, node) ∈
      (extractTsInventory file.nodes).functions :=
  List.mem_map.mpr ⟨(id, node), List.mem_filter.mpr ⟨mem_entries_iff.mpr stored,
    isInventoryFunction_of_declaration declarations kind⟩, rfl⟩

theorem functionReference_of_declaration
    (declarations : Declarations file.nodes)
    (stored : file.nodes[id]? = some node)
    (kind : node.kind = .function (some name) .functionDeclaration params) :
    functionReferenceForKind (extractTsInventory file.nodes) node =
      some (functionRow file.nodes (id, node)) := by
  rw [functionReferenceForKind, kind]
  refine getLast?_eq_of_forall _ ?_ fun row mem => ?_
  · exact List.mem_filter.mpr
      ⟨mem_inventory_of_declaration declarations stored kind, by
        simp [functionRow]⟩
  · obtain ⟨listed, spans⟩ := List.mem_filter.mp mem
    obtain ⟨other, otherNode, _, _, otherStored, otherKind, rfl, _⟩ :=
      exists_declaration_of_inventory declarations listed
    have same := file.distinctSpans other id otherNode node otherStored stored
      (isInventoryFunction_of_declaration declarations otherKind)
      (isInventoryFunction_of_declaration declarations kind)
      (of_decide_eq_true spans)
    subst same
    rw [Option.some.inj (otherStored.symm.trans stored)]

/-- A name leads to the key of the declaration that has it. -/
theorem uniqueFunctionKeyByName_eq_some_iff
    {key : InventoryKey}
    (declarations : Declarations file.nodes) :
    uniqueFunctionKeyByName (extractTsInventory file.nodes) name = some key ↔
      ∃ id params, IsDeclaration file.nodes id name params ∧
        functionKey file.nodes id = some key := by
  have rows : ∀ entry : String × InventoryKey,
      entry ∈ (extractTsInventory file.nodes).functions.filterMap (fun row =>
        row.displayName.map fun name => (name, row.stableKey)) ↔
      ∃ id params, IsDeclaration file.nodes id entry.1 params ∧
        functionKey file.nodes id = some entry.2 := by
    intro entry
    rw [List.mem_filterMap]
    constructor
    · rintro ⟨row, listed, named⟩
      obtain ⟨id, node, name, params, stored, kind, rfl, display⟩ :=
        exists_declaration_of_inventory declarations listed
      rw [display, Option.map_some, Option.some.injEq] at named
      subst named
      exact ⟨id, params, ⟨node, stored, kind⟩, by
        rw [functionKey, stored, Option.map_some]⟩
    · rintro ⟨id, params, ⟨node, stored, kind⟩, key⟩
      refine ⟨_, mem_inventory_of_declaration declarations stored kind, ?_⟩
      rw [functionKey, stored, Option.map_some, Option.some.injEq] at key
      have display : (functionRow file.nodes (id, node)).displayName =
          some entry.1 := by
        simp [functionRow, kind, functionDisplayName]
      rw [display, Option.map_some, key]
  rw [uniqueFunctionKeyByName, uniqueLookup_eq_some_iff, rows]
  refine and_iff_left_of_imp ?_
  rintro ⟨id, params, declared, key⟩ row mem same
  obtain ⟨other, others, otherDeclared, otherKey⟩ := (rows row).mp mem
  rw [same] at otherDeclared
  rw [declarations.distinctNames other id _ _ _ otherDeclared declared, key]
    at otherKey
  exact (Option.some.inj otherKey).symm

/-- A node with an inventory row is a declaration. -/
theorem exists_declaration_of_reference
    {row : FunctionRow}
    (declarations : Declarations file.nodes)
    (stored : file.nodes[id]? = some node)
    (found : functionReferenceForKind (extractTsInventory file.nodes) node =
      some row) :
    ∃ name params, node.kind = .function (some name) .functionDeclaration params ∧
      row.displayName = some name := by
  have accepted : isInventoryFunction file.nodes id node.kind = true := by
    rw [functionReferenceForKind] at found
    split at found
    · rename_i kind
      rw [kind, isInventoryFunction, declarations.isMethodValue]
      rfl
    · rename_i kind
      rw [kind]
      rfl
    · rename_i kind
      rw [kind]
      rfl
    · cases found
  obtain ⟨name, params, kind⟩ := declarations.named id node stored accepted
  refine ⟨name, params, kind, ?_⟩
  rw [functionReference_of_declaration declarations stored kind] at found
  obtain rfl := Option.some.inj found
  simp [functionRow, kind, functionDisplayName]

/-- A name leads to the declaration that has it. -/
theorem uniqueFunctionNodeByName_eq_some_iff
    (declarations : Declarations file.nodes) :
    uniqueFunctionNodeByName (extractTsInventory file.nodes) file.nodes name =
        some id ↔
      ∃ params, IsDeclaration file.nodes id name params := by
  have rows : ∀ entry : String × NodeId,
      entry ∈ (entries file.nodes).filterMap (fun entry =>
        ((functionReferenceForKind (extractTsInventory file.nodes)
          entry.2).bind (·.displayName)).map fun name => (name, entry.1)) ↔
      ∃ params, IsDeclaration file.nodes entry.2 entry.1 params := by
    intro entry
    rw [List.mem_filterMap]
    constructor
    · rintro ⟨⟨id, node⟩, mem, named⟩
      have stored := mem_entries_iff.mp mem
      obtain ⟨display, bound, rfl⟩ := Option.map_eq_some_iff.mp named
      obtain ⟨row, found, shown⟩ := Option.bind_eq_some_iff.mp bound
      obtain ⟨name, params, kind, own⟩ :=
        exists_declaration_of_reference declarations stored found
      obtain rfl : name = display := Option.some.inj (own.symm.trans shown)
      exact ⟨params, node, stored, kind⟩
    · rintro ⟨params, node, stored, kind⟩
      refine ⟨(entry.2, node), mem_entries_iff.mpr stored, ?_⟩
      rw [functionReference_of_declaration declarations stored kind]
      simp [functionRow, kind, functionDisplayName]
  rw [uniqueFunctionNodeByName, uniqueLookup_eq_some_iff, rows]
  refine and_iff_left_of_imp ?_
  rintro ⟨params, declared⟩ row mem same
  obtain ⟨others, otherDeclared⟩ := (rows row).mp mem
  rw [same] at otherDeclared
  exact declarations.distinctNames _ _ _ _ _ otherDeclared declared

theorem parameterNameByFunction_eq_some_iff
    {names : List String}
    (declarations : Declarations file.nodes) :
    parameterNameByFunction (extractTsInventory file.nodes) file.nodes id =
        some names ↔
      ∃ name params, IsDeclaration file.nodes id name params ∧
        params.filterMap BindingPattern.identifierName = names := by
  constructor
  · intro found
    obtain ⟨node, stored, found⟩ := Option.bind_eq_some_iff.mp found
    obtain ⟨row, reference, found⟩ := Option.bind_eq_some_iff.mp found
    obtain ⟨name, params, kind, _⟩ :=
      exists_declaration_of_reference declarations stored reference
    rw [kind] at found
    exact ⟨name, params, ⟨node, stored, kind⟩, Option.some.inj found⟩
  · rintro ⟨name, params, ⟨node, stored, kind⟩, rfl⟩
    rw [parameterNameByFunction, stored]
    simp only [Option.bind_eq_bind, Option.bind_some,
      functionReference_of_declaration declarations stored kind]
    rw [kind]
    rfl

theorem callsiteKeyForKind_eq
    (stored : file.nodes[id]? = some node) :
    callsiteKeyForKind (extractTsInventory file.nodes) node =
      callsiteKey file.nodes id := by
  rw [callsiteKeyForKind, callsiteKey, stored, Option.bind_some]
  cases found : node.callsiteSpan with
  | none => rfl
  | some span =>
      rw [Option.bind_some, Option.map_some, callsiteKeyBySpan]
      rw [getLast?_eq_of_forall (callsiteRow span), Option.map_some]
      · refine List.mem_filter.mpr ⟨List.mem_map.mpr ⟨span, ?_, rfl⟩, by
          simp [callsiteRow]⟩
        exact List.mem_filterMap.mpr ⟨node, List.mem_of_getElem? stored, found⟩
      · intro other mem
        obtain ⟨listed, same⟩ := List.mem_filter.mp mem
        obtain ⟨otherSpan, _, rfl⟩ := List.mem_map.mp listed
        rw [show otherSpan = span from of_decide_eq_true same]

/-! ## Flows -/

/-- The calls of parameters are known by the positions of named parameters. -/
theorem mem_parameterCalls_iff
    {index : Nat}
    {key : InventoryKey}
    (declarations : Declarations file.nodes) :
    (id, index, key) ∈
        parameterCalls (extractTsInventory file.nodes) file.nodes ↔
      ∃ callsite name params position,
        CallsParameter file.nodes callsite name params position ∧
          IsDeclaration file.nodes id name params ∧
            namedPosition params position = index ∧
              callsiteKey file.nodes callsite = some key := by
  rw [parameterCalls, List.mem_filterMap]
  constructor
  · rintro ⟨⟨callsite, node⟩, mem, found⟩
    have stored := mem_entries_iff.mp mem
    rw [parameterCall] at found
    split at found
    · rename_i callee arguments kind
      obtain ⟨calleeName, called, found⟩ := Option.bind_eq_some_iff.mp found
      obtain ⟨enclosing, around, found⟩ := Option.bind_eq_some_iff.mp found
      obtain ⟨names, named, found⟩ := Option.bind_eq_some_iff.mp found
      obtain ⟨place, first, found⟩ := Option.bind_eq_some_iff.mp found
      obtain ⟨own, ownKey, found⟩ := Option.bind_eq_some_iff.mp found
      obtain ⟨rfl, rfl, rfl⟩ : enclosing = id ∧ place = index ∧ own = key := by
        simpa using found
      obtain ⟨name, params, declared, rfl⟩ :=
        (parameterNameByFunction_eq_some_iff declarations).mp named
      rw [idxOf?_eq_some_iff
        (declarations.distinctParameters _ _ _ declared)] at first
      obtain ⟨position, same, parameter⟩ := exists_of_getElem?_filterMap first
      refine ⟨callsite, name, params, position, ⟨enclosing, calleeName,
        arguments, ⟨node, callee, stored, kind, called⟩, around, declared,
        parameter⟩, declared, same, ?_⟩
      rw [← callsiteKeyForKind_eq stored]
      exact ownKey
    · cases found
  · rintro ⟨callsite, name, params, position, ⟨enclosing, parameter, arguments,
      ⟨node, callee, stored, kind, called⟩, around, inside, found⟩, declared,
      rfl, ownKey⟩
    obtain rfl := declarations.distinctNames _ _ _ _ _ inside declared
    refine ⟨(callsite, node), mem_entries_iff.mpr stored, ?_⟩
    have names := (parameterNameByFunction_eq_some_iff declarations).mpr
      ⟨name, params, declared, rfl⟩
    have first := (idxOf?_eq_some_iff
      (declarations.distinctParameters _ _ _ declared)).mpr
        (getElem?_namedPosition found)
    rw [← callsiteKeyForKind_eq stored] at ownKey
    simp only [parameterCall, kind, called, around, names, first, ownKey,
      Option.bind_eq_bind, Option.bind_some, Option.pure_def]

theorem callsiteKey_inj
    {first second : NodeId}
    {key : InventoryKey}
    (found : callsiteKey file.nodes first = some key)
    (other : callsiteKey file.nodes second = some key) : first = second := by
  obtain ⟨span, holds, rfl⟩ := Option.map_eq_some_iff.mp found
  obtain ⟨otherSpan, otherHolds, same⟩ := Option.map_eq_some_iff.mp other
  obtain ⟨node, stored, spanned⟩ := Option.bind_eq_some_iff.mp holds
  obtain ⟨otherNode, otherStored, otherSpanned⟩ :=
    Option.bind_eq_some_iff.mp otherHolds
  have spans : otherSpan = span := congrArg InventoryKey.span same
  exact file.distinctCallsites first second node otherNode span stored
    otherStored spanned (spans ▸ otherSpanned)

theorem functionKey_inj
    {first second : NodeId}
    {source other : String}
    {others : List BindingPattern}
    {key : InventoryKey}
    (declarations : Declarations file.nodes)
    (declared : IsDeclaration file.nodes first source params)
    (otherDeclared : IsDeclaration file.nodes second other others)
    (found : functionKey file.nodes first = some key)
    (same : functionKey file.nodes second = some key) : first = second := by
  obtain ⟨node, stored, kind⟩ := declared
  obtain ⟨otherNode, otherStored, otherKind⟩ := otherDeclared
  rw [functionKey, stored, Option.map_some, Option.some.injEq] at found
  rw [functionKey, otherStored, Option.map_some, Option.some.injEq] at same
  exact file.distinctSpans first second node otherNode stored otherStored
    (isInventoryFunction_of_declaration declarations kind)
    (isInventoryFunction_of_declaration declarations otherKind)
    (congrArg InventoryKey.span (found.trans same.symm))

theorem mem_parameterArgumentFlows_iff
    {inventory : TsInventoryOutput}
    {nodes : List AstNode}
    {arguments : List Expression}
    {callsiteKey : InventoryKey}
    {flow : TsTokenSourceFlow} :
    flow ∈ parameterArgumentFlows inventory nodes name arguments callsiteKey ↔
      ∃ callee argument position passed own,
        uniqueFunctionNodeByName inventory nodes name = some callee ∧
          arguments[position]?.bind Expression.identifierName = some argument ∧
            uniqueFunctionKeyByName inventory argument = some passed ∧
              (callee, position, own) ∈ parameterCalls inventory nodes ∧
                flow = ⟨passed, own, .parameterArgument, .inl callsiteKey⟩ := by
  rw [parameterArgumentFlows]
  cases uniqueFunctionNodeByName inventory nodes name with
  | none => simp
  | some callee =>
      simp only [List.mem_flatMap, Prod.exists, List.mem_zipIdx_iff_getElem?,
        Option.some.injEq]
      constructor
      · rintro ⟨argument, position, stored, mem⟩
        split at mem
        · cases mem
        · rename_i passed bound
          obtain ⟨identifier, named, unique⟩ := Option.bind_eq_some_iff.mp bound
          obtain ⟨⟨caller, place, own⟩, kept, rfl⟩ := List.mem_map.mp mem
          obtain ⟨listed, accepted⟩ := List.mem_filter.mp kept
          obtain ⟨rfl, rfl⟩ := of_decide_eq_true accepted
          exact ⟨_, identifier, _, passed, own, rfl, by
            rw [stored, Option.bind_some, named], unique, listed, rfl⟩
      · rintro ⟨_, identifier, position, passed, own, rfl, found, unique, listed,
          rfl⟩
        obtain ⟨argument, stored, named⟩ := Option.bind_eq_some_iff.mp found
        refine ⟨argument, position, stored, ?_⟩
        rw [named, Option.bind_some, unique]
        exact List.mem_map.mpr ⟨(callee, position, own), List.mem_filter.mpr
          ⟨listed, decide_eq_true ⟨rfl, rfl⟩⟩, rfl⟩

/-- The flows of arguments come from the calls of identifiers. -/
theorem mem_collect_iff
    {κ : Type}
    [LinearOrder κ]
    {texts : TsTokenSourceFlow → κ}
    {flow : TsTokenSourceFlow}
    (argument : flow.kind = .parameterArgument) :
    flow ∈ collectTsTokenSourceFlows texts file.nodes none ↔
      ∃ caller callee arguments key, IsCall file.nodes caller callee arguments ∧
        callsiteKey file.nodes caller = some key ∧
          flow ∈ parameterArgumentFlows (extractTsInventory file.nodes)
            file.nodes callee arguments key := by
  have noReturn : ∀ id callee key, flow ∉ returnValueFlow
      (extractTsInventory file.nodes) file.nodes id callee key := by
    intro id callee key mem
    rw [returnValueFlow] at mem
    split at mem
    · cases mem
    · rw [List.mem_singleton.mp mem] at argument
      cases argument
  rw [collectTsTokenSourceFlows, Option.getD_none, collectFlows,
    Ranking.mem_sortByKey, List.mem_dedup, List.mem_flatMap]
  constructor
  · rintro ⟨⟨caller, node⟩, mem, flows⟩
    have stored := mem_entries_iff.mp mem
    rw [callFlows] at flows
    split at flows
    · rename_i expression arguments kind
      split at flows
      · rename_i key callee keyed named
        rw [callsiteKeyForKind_eq stored] at keyed
        exact ⟨caller, callee, arguments, key,
          ⟨node, expression, stored, kind, named⟩, keyed,
          (List.mem_append.mp flows).resolve_right (noReturn _ _ _)⟩
      · cases flows
    · cases flows
  · rintro ⟨caller, callee, arguments, key,
      ⟨node, expression, stored, kind, named⟩, keyed, flows⟩
    refine ⟨(caller, node), mem_entries_iff.mpr stored, ?_⟩
    rw [← callsiteKeyForKind_eq stored] at keyed
    simp only [callFlows, kind, keyed, named]
    exact List.mem_append_left _ flows

theorem IsDeclaration.unique
    {nodes : List AstNode}
    {other : String}
    {others : List BindingPattern}
    (declared : IsDeclaration nodes id name params)
    (again : IsDeclaration nodes id other others) :
    name = other ∧ params = others := by
  obtain ⟨node, stored, kind⟩ := declared
  obtain ⟨same, restored, otherKind⟩ := again
  obtain rfl := Option.some.inj (stored.symm.trans restored)
  rw [kind] at otherKind
  simpa using otherKind

theorem exists_functionKey
    (declared : IsDeclaration file.nodes id name params) :
    ∃ key, functionKey file.nodes id = some key := by
  obtain ⟨node, stored, _⟩ := declared
  exact ⟨(functionRow file.nodes (id, node)).stableKey, by
    rw [functionKey, stored, Option.map_some]⟩

theorem exists_callsiteKey
    {callee : String}
    {arguments : List Expression}
    (call : IsCall file.nodes id callee arguments) :
    ∃ key, callsiteKey file.nodes id = some key := by
  obtain ⟨node, expression, stored, kind, _⟩ := call
  have spanned := file.callsites node (List.mem_of_getElem? stored) _ _ kind
  obtain ⟨span, holds⟩ := Option.isSome_iff_exists.mp spanned
  exact ⟨(callsiteRow span).stableKey, by
    rw [callsiteKey, stored, Option.bind_some, holds, Option.map_some]⟩

/-- Flows from functions to calls go by the positions of named parameters. -/
theorem exists_flow_iff
    {κ : Type}
    [LinearOrder κ]
    {texts : TsTokenSourceFlow → κ}
    {source callsite : NodeId}
    (declarations : Declarations file.nodes)
    (declared : IsDeclaration file.nodes source name params) :
    (∃ flow ∈ collectTsTokenSourceFlows texts file.nodes none,
      flow.kind = .parameterArgument ∧
        functionKey file.nodes source = some flow.source ∧
          callsiteKey file.nodes callsite = some flow.callsite) ↔
      ∃ function others position,
        CallsParameter file.nodes callsite function others position ∧
          Passes file.nodes name function (namedPosition others position) := by
  constructor
  · rintro ⟨flow, mem, argument, fromSource, toCallsite⟩
    obtain ⟨caller, calleeName, arguments, key, call, _, flows⟩ :=
      (mem_collect_iff argument).mp mem
    obtain ⟨callee, identifier, index, passed, own, unique, found, uniqueKey,
      listed, rfl⟩ := mem_parameterArgumentFlows_iff.mp flows
    obtain ⟨place, function, others, position, calls, inside, rfl, ownKey⟩ :=
      (mem_parameterCalls_iff declarations).mp listed
    obtain rfl := callsiteKey_inj ownKey toCallsite
    obtain ⟨otherParams, named⟩ :=
      (uniqueFunctionNodeByName_eq_some_iff declarations).mp unique
    obtain ⟨passedId, passedParams, passedDeclared, passedKey⟩ :=
      (uniqueFunctionKeyByName_eq_some_iff declarations).mp uniqueKey
    obtain rfl := functionKey_inj declarations declared passedDeclared
      fromSource passedKey
    obtain ⟨rfl, _⟩ := declared.unique passedDeclared
    obtain ⟨rfl, _⟩ := inside.unique named
    exact ⟨function, others, position, calls, caller, arguments, call, found⟩
  · rintro ⟨function, others, position, calls, caller, arguments, call, found⟩
    have ⟨inside, _, _, isCall, _, holder, _⟩ := calls
    obtain ⟨key, keyed⟩ := exists_callsiteKey call
    obtain ⟨own, ownKey⟩ := exists_callsiteKey isCall
    obtain ⟨passed, passedKey⟩ := exists_functionKey declared
    refine ⟨⟨passed, own, .parameterArgument, .inl key⟩, ?_, rfl, passedKey,
      ownKey⟩
    refine (mem_collect_iff rfl).mpr ⟨caller, function, arguments, key, call,
      keyed, mem_parameterArgumentFlows_iff.mpr ⟨inside, name, _, passed, own,
        ?_, found, ?_, ?_, rfl⟩⟩
    · exact (uniqueFunctionNodeByName_eq_some_iff declarations).mpr
        ⟨others, holder⟩
    · exact (uniqueFunctionKeyByName_eq_some_iff declarations).mpr
        ⟨source, params, declared, passedKey⟩
    · exact (mem_parameterCalls_iff declarations).mpr
        ⟨callsite, function, others, position, calls, holder, rfl, ownKey⟩

/-- The function, the parameters and the position of a called parameter are
those of the call. -/
theorem CallsParameter.unique
    {callsite : NodeId}
    {function other : String}
    {others : List BindingPattern}
    {position place : Nat}
    (declarations : Declarations file.nodes)
    (calls : CallsParameter file.nodes callsite function params position)
    (otherCalls : CallsParameter file.nodes callsite other others place) :
    function = other ∧ params = others ∧ position = place := by
  obtain ⟨id, parameter, arguments, call, around, declared, named⟩ := calls
  obtain ⟨id', parameter', arguments', call', around', declared', named'⟩ :=
    otherCalls
  obtain rfl := Option.some.inj (around.symm.trans around')
  obtain ⟨rfl, rfl⟩ := declared.unique declared'
  refine ⟨rfl, rfl, ?_⟩
  obtain ⟨node, callee, stored, kind, calleeName⟩ := call
  obtain ⟨node', callee', stored', kind', calleeName'⟩ := call'
  obtain rfl := Option.some.inj (stored.symm.trans stored')
  obtain ⟨rfl, _⟩ : callee = callee' ∧ arguments = arguments' := by
    simpa using kind.symm.trans kind'
  obtain rfl := Option.some.inj (calleeName.symm.trans calleeName')
  have distinct := declarations.distinctParameters _ _ _ declared
  have places : namedPosition params position = namedPosition params place :=
    Option.some.inj
      (((idxOf?_eq_some_iff distinct).mpr (getElem?_namedPosition named)).symm.trans
        ((idxOf?_eq_some_iff distinct).mpr (getElem?_namedPosition named')))
  rcases Nat.lt_trichotomy position place with before | same | after
  · exact absurd places (namedPosition_lt before named).ne
  · exact same
  · exact absurd places (namedPosition_lt after named').ne'

end File

/-- If flows are matched, a called parameter decides what its call gets. -/
theorem offsetsAgree_of_flowsMatched
    {κ : Type}
    [LinearOrder κ]
    {texts : TsTokenSourceFlow → κ}
    {file : TsFile}
    (declarations : Declarations file.nodes)
    (matched : FlowsMatched texts file.nodes) : OffsetsAgree file.nodes := by
  intro callsite function params position calls id source others declared
  have ⟨_, parameter, arguments, isCall, _⟩ := calls
  have iff := matched id source others declared callsite parameter arguments
    isCall
  rw [exists_flow_iff declarations declared] at iff
  constructor
  · intro passes
    obtain ⟨_, _, _, found, passed⟩ :=
      iff.mpr ⟨function, params, position, calls, passes⟩
    obtain ⟨rfl, rfl, rfl⟩ := calls.unique declarations found
    exact passed
  · intro passes
    obtain ⟨_, _, _, found, passed⟩ :=
      iff.mp ⟨function, params, position, calls, passes⟩
    obtain ⟨rfl, rfl, rfl⟩ := calls.unique declarations found
    exact passed

/-- Flows are matched to parameters exactly if the offsets agree: for every
called parameter, the functions passed at its position are those passed at its
position among the parameters that are not taken apart. -/
theorem flowsMatched_iff
    {κ : Type}
    [LinearOrder κ]
    (texts : TsTokenSourceFlow → κ)
    (file : TsFile)
    (declarations : Declarations file.nodes) :
    FlowsMatched texts file.nodes ↔ OffsetsAgree file.nodes := by
  refine ⟨offsetsAgree_of_flowsMatched declarations, ?_⟩
  intro agree source name params declared callsite callee arguments isCall
  rw [exists_flow_iff declarations declared, FlowsTo]
  constructor
  · rintro ⟨function, others, position, calls, passes⟩
    exact ⟨function, others, position, calls,
      (agree callsite function others position calls source name params
        declared).mpr passes⟩
  · rintro ⟨function, others, position, calls, passes⟩
    exact ⟨function, others, position, calls,
      (agree callsite function others position calls source name params
        declared).mp passes⟩

/-! ## A function passed behind a pattern -/

/-- `function f() {}`, `function g({a}, p) { p(); }` and `g(0, f)`. -/
def behindPattern : List AstNode :=
  [⟨.other, ⟨0, 54⟩, 0, none⟩,
    ⟨.function (some "f") .functionDeclaration [], ⟨0, 15⟩, 0, none⟩,
    ⟨.function (some "g") .functionDeclaration
      [.destructuring, .bindingIdentifier "p"], ⟨16, 43⟩, 0, none⟩,
    ⟨.callExpression (.identifier "p") [], ⟨37, 40⟩, 2, some ⟨37, 40⟩⟩,
    ⟨.callExpression (.identifier "g") [.other, .identifier "f"], ⟨44, 51⟩, 0,
      some ⟨44, 51⟩⟩]

def behindPatternFile : TsFile where
  nodes := behindPattern
  callsites := by
    simp [behindPattern]
  distinctSpans := by
    rintro (_ | _ | _ | _ | _ | first) (_ | _ | _ | _ | _ | second) node other
      stored restored <;>
      simp_all [behindPattern, isInventoryFunction] <;> grind
  distinctCallsites := by
    rintro (_ | _ | _ | _ | _ | first) (_ | _ | _ | _ | _ | second) node other
      span stored restored <;>
      simp_all [behindPattern] <;> grind

theorem isDeclaration_behindPattern
    {id : NodeId}
    {name : String}
    {params : List BindingPattern} :
    IsDeclaration behindPattern id name params ↔
      (id = 1 ∧ name = "f" ∧ params = []) ∨
        (id = 2 ∧ name = "g" ∧
          params = [.destructuring, .bindingIdentifier "p"]) := by
  rcases id with _ | _ | _ | _ | _ | id <;>
    simp [IsDeclaration, behindPattern] <;> grind

theorem declarations_behindPattern : Declarations behindPatternFile.nodes where
  named := by
    rintro (_ | _ | _ | _ | _ | id) node stored accepted <;>
      simp_all [behindPatternFile, behindPattern, isInventoryFunction] <;> grind
  distinctNames := by
    intro first second name params others declared again
    rcases isDeclaration_behindPattern.mp declared with
      ⟨rfl, rfl, _⟩ | ⟨rfl, rfl, _⟩ <;>
      rcases isDeclaration_behindPattern.mp again with
        ⟨rfl, same, _⟩ | ⟨rfl, same, _⟩ <;>
      simp_all
  distinctParameters := by
    intro id name params declared
    rcases isDeclaration_behindPattern.mp declared with
      ⟨_, _, rfl⟩ | ⟨_, _, rfl⟩ <;> decide

theorem flowsMatched_iff_behindPattern :
    FlowsMatched (fun _ => ()) behindPatternFile.nodes ↔
      OffsetsAgree behindPatternFile.nodes :=
  flowsMatched_iff _ behindPatternFile declarations_behindPattern

/-- A function that is passed behind a pattern does not reach its parameter. -/
theorem not_flowsMatched_behindPattern :
    ¬ ∀ file : TsFile, Declarations file.nodes →
      FlowsMatched (fun _ => ()) file.nodes := by
  intro matched
  have agree := offsetsAgree_of_flowsMatched declarations_behindPattern
    (matched behindPatternFile declarations_behindPattern)
  have calls : CallsParameter behindPattern 3 "g"
      [.destructuring, .bindingIdentifier "p"] 1 :=
    ⟨2, "p", [], ⟨_, _, rfl, rfl, rfl⟩,
      by simp [enclosingFunctionNode, behindPattern],
      isDeclaration_behindPattern.mpr (.inr ⟨rfl, rfl, rfl⟩), rfl⟩
  have passes : Passes behindPattern "f" "g" 1 :=
    ⟨4, _, ⟨_, _, rfl, rfl, rfl⟩, rfl⟩
  obtain ⟨id, arguments, ⟨node, callee, stored, kind, called⟩, first⟩ :=
    (agree 3 "g" _ 1 calls 1 "f" []
      (isDeclaration_behindPattern.mpr (.inl ⟨rfl, rfl, rfl⟩))).mp passes
  rcases id with _ | _ | _ | _ | _ | id <;>
    simp_all [behindPatternFile, behindPattern, namedPosition] <;>
    grind [Expression.identifierName, BindingPattern.identifierName]

end TsFlow
end Polint
