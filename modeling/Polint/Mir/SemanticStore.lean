import Polint.Mir.Rows

/-!
# The semantic store

How an output becomes a store: the rows of every family are sorted by their
stable keys and numbered, and every reference is looked up in the table of its
family.
-/

namespace Polint
namespace Mir

open Ranking (sortByKey idMap)

/-- Why facts are rejected. -/
inductive AnalysisError
  | missingFactFamily (family : String)
  | invalidFact (provider reason : String)
  | cacheSchemaMismatch (schema : String)
  deriving DecidableEq

def semanticMirProviderId : String := "polint.semantic_mir"

def invalidFact (reason : String) : AnalysisError :=
  .invalidFact semanticMirProviderId reason

/-- The new ids of the rows of a family. -/
abbrev IdMap := Std.TreeMap Nat Nat

/-- The new id in place of an old one. -/
def remapId
    (id : Nat) (ids : IdMap) (reason : String) : Except AnalysisError Nat :=
  match ids[id]? with
  | some id => .ok id
  | none => .error (invalidFact reason)

def remapBodyId
    (id : MirBodyId) (bodyIds : IdMap) (reason : String) :
    Except AnalysisError MirBodyId :=
  remapId id bodyIds reason

def remapPlaceId
    (id : PlaceId) (placeIds : IdMap) (reason : String) :
    Except AnalysisError PlaceId :=
  remapId id placeIds reason

def remapUnsupportedId
    (id : UnsupportedId) (unsupportedIds : IdMap) (reason : String) :
    Except AnalysisError UnsupportedId :=
  remapId id unsupportedIds reason

/-! ## References inside rows -/

mutual

/-- The value with the new ids of its bodies and places. -/
def remapValue
    (bodyIds placeIds : IdMap) :
    MirValue Ids → Except AnalysisError (MirValue Ids)
  | .place place => do
      return .place (← remapPlaceId place placeIds "dangling MIR value place")
  | .binOp op lhs rhs => do
      let lhs ← remapValue bodyIds placeIds lhs
      let rhs ← remapValue bodyIds placeIds rhs
      return .binOp op lhs rhs
  | .aggregate kind fields => do
      return .aggregate kind (← remapFields bodyIds placeIds fields)
  | .closure body captures => do
      let body ← remapBodyId body bodyIds "dangling MIR closure body"
      let captures ← captures.mapM fun capture =>
        remapPlaceId capture placeIds "dangling MIR closure capture"
      return .closure body captures
  | .literal value => return .literal value
  | .temporary value => return .temporary value
  | .callReturn site => return .callReturn site
  | .unknown evidence => return .unknown evidence

/-- The fields of an aggregate with the new ids of their values. -/
def remapFields
    (bodyIds placeIds : IdMap) :
    List (MirAggregateField (MirValue Ids)) →
      Except AnalysisError (List (MirAggregateField (MirValue Ids)))
  | [] => return []
  | ⟨name, value⟩ :: rest => do
      let value ← remapValue bodyIds placeIds value
      let rest ← remapFields bodyIds placeIds rest
      return ⟨name, value⟩ :: rest

end

def remapPlaceRoot
    (bodyIds : IdMap) : PlaceRoot Ids → Except AnalysisError (PlaceRoot Ids)
  | .temporary body ordinal => do
      let body ← remapBodyId body bodyIds "dangling temporary place body"
      return .temporary body ordinal
  | root => return root

def remapOperationKind
    (bodyIds placeIds unsupportedIds : IdMap) :
    MirOperationKind Ids → Except AnalysisError (MirOperationKind Ids)
  | .storageLive place => do
      return .storageLive
        (← remapPlaceId place placeIds "dangling MIR operation place")
  | .read place => do
      return .read
        (← remapPlaceId place placeIds "dangling MIR operation place")
  | .bind place value => do
      let place ← remapPlaceId place placeIds "dangling MIR operation place"
      return .bind place (← remapValue bodyIds placeIds value)
  | .assign place value mode => do
      let place ← remapPlaceId place placeIds "dangling MIR operation place"
      return .assign place (← remapValue bodyIds placeIds value) mode
  | .write place value => do
      let place ← remapPlaceId place placeIds "dangling MIR operation place"
      return .write place (← remapValue bodyIds placeIds value)
  | .branch predicate predicatePlace nilTest => do
      let predicatePlace ← predicatePlace.mapM fun place =>
        remapPlaceId place placeIds "dangling MIR predicate place"
      return .branch predicate predicatePlace nilTest
  | .call site callee arguments returnPlace => do
      let callee ← remapValue bodyIds placeIds callee
      let arguments ← arguments.mapM fun argument =>
        remapPlaceId argument placeIds "dangling MIR call argument place"
      let returnPlace ←
        remapPlaceId returnPlace placeIds "dangling MIR call return place"
      return .call site callee arguments returnPlace
  | .return_ value => do
      return .return_ (← value.mapM (remapValue bodyIds placeIds))
  | .unsupported unsupported => do
      return .unsupported
        (← remapUnsupportedId unsupported unsupportedIds
          "dangling MIR unsupported operation")

def remapTerminatorKind
    (bodyIds blockIds placeIds unsupportedIds : IdMap) :
    MirTerminatorKind Ids → Except AnalysisError (MirTerminatorKind Ids)
  | .goto target => do
      return .goto (← remapId target blockIds "dangling MIR goto target")
  | .branch predicate predicatePlace thenTarget elseTarget => do
      let thenTarget ←
        remapId thenTarget blockIds "dangling MIR branch then target"
      let elseTarget ←
        remapId elseTarget blockIds "dangling MIR branch else target"
      let predicatePlace ← predicatePlace.mapM fun place =>
        remapPlaceId place placeIds "dangling MIR predicate place"
      return .branch predicate predicatePlace thenTarget elseTarget
  | .switch discriminant cases otherwise => do
      let discriminant ← remapValue bodyIds placeIds discriminant
      let cases ← cases.mapM fun (value, target) => do
        let value ← remapValue bodyIds placeIds value
        let target ← remapId target blockIds "dangling MIR switch case target"
        return (value, target)
      let otherwise ←
        remapId otherwise blockIds "dangling MIR switch otherwise target"
      return .switch discriminant cases otherwise
  | .return_ value => do
      return .return_ (← value.mapM (remapValue bodyIds placeIds))
  | .throw value unwind => do
      let value ← value.mapM (remapValue bodyIds placeIds)
      let unwind ← remapId unwind blockIds "dangling MIR throw unwind target"
      return .throw value unwind
  | .call site callee arguments returnPlace normal unwind => do
      let callee ← remapValue bodyIds placeIds callee
      let arguments ← arguments.mapM fun argument =>
        remapPlaceId argument placeIds "dangling MIR call argument place"
      let returnPlace ←
        remapPlaceId returnPlace placeIds "dangling MIR call return place"
      let normal ← remapId normal blockIds "dangling MIR call normal target"
      let unwind ← unwind.mapM fun unwind =>
        remapId unwind blockIds "dangling MIR call unwind target"
      return .call site callee arguments returnPlace normal unwind
  | .suspend kind value resume => do
      let value ← value.mapM (remapValue bodyIds placeIds)
      let resume ← remapId resume blockIds "dangling MIR suspend resume target"
      return .suspend kind value resume
  | .unreachable => return .unreachable
  | .unsupported unsupported => do
      return .unsupported
        (← remapUnsupportedId unsupported unsupportedIds
          "dangling MIR unsupported terminator")

/-! ## Rows of each family -/

def normalizeBodies (bodies : List (MirBody Ids)) : List (MirBody Ids) × IdMap :=
  let bodies := sortByKey MirBody.stableKey bodies
  (bodies.zipIdx.map fun (body, index) => { body with id := index },
    idMap MirBody.id bodies)

def normalizePlaces
    (bodyIds : IdMap) (places : List (PlaceFact Ids)) :
    Except AnalysisError (List (PlaceFact Ids) × IdMap) := do
  let places := sortByKey PlaceFact.stableKey places
  let renamed ← places.zipIdx.mapM fun (place, index) => do
    let root ← remapPlaceRoot bodyIds place.root
    return { place with id := index, root }
  return (renamed, idMap PlaceFact.id places)

def normalizePlaceTypes
    (placeIds : IdMap) (placeTypes : List (PlaceTypeFact Ids)) :
    Except AnalysisError (List (PlaceTypeFact Ids)) := do
  let renamed ← placeTypes.mapM fun fact => do
    let place ← remapPlaceId fact.place placeIds "dangling typed place"
    return { fact with place }
  return sortByKey PlaceTypeFact.place renamed

def normalizeOperations
    (bodyIds placeIds unsupportedIds : IdMap)
    (operations : List (MirOperation Ids)) :
    Except AnalysisError (List (MirOperation Ids) × IdMap) := do
  let operations := sortByKey MirOperation.stableKey operations
  let renamed ← operations.zipIdx.mapM fun (operation, index) => do
    let body ←
      remapBodyId operation.body bodyIds "dangling MIR operation body"
    let kind ←
      remapOperationKind bodyIds placeIds unsupportedIds operation.kind
    return { operation with id := index, body, kind }
  return (renamed, idMap MirOperation.id operations)

/-- The numbers of rows in the order of their stable keys. -/
def stableIdMap
    {α : Type} (rows : List α) (stableKey : α → StableKey) (oldId : α → Nat) :
    IdMap :=
  idMap oldId (sortByKey stableKey rows)

def unsupportedIdMap (rows : List (UnsupportedSemanticFact Ids)) : IdMap :=
  stableIdMap rows UnsupportedSemanticFact.stableKey UnsupportedSemanticFact.id

def normalizeStatements
    (bodyIds operationIds statementIds : IdMap)
    (rows : List (MirStatement Ids)) :
    Except AnalysisError (List (MirStatement Ids)) :=
  (sortByKey MirStatement.stableKey rows).mapM fun row => do
    let id ← remapId row.id statementIds "dangling MIR statement id"
    let body ← remapBodyId row.body bodyIds "dangling MIR statement body"
    let operation ←
      remapId row.operation operationIds "dangling MIR statement operation"
    return { row with id, body, operation }

def normalizeTerminators
    (bodyIds blockIds placeIds unsupportedIds terminatorIds : IdMap)
    (rows : List (MirTerminator Ids)) :
    Except AnalysisError (List (MirTerminator Ids)) :=
  (sortByKey MirTerminator.stableKey rows).mapM fun row => do
    let id ← remapId row.id terminatorIds "dangling MIR terminator id"
    let body ← remapBodyId row.body bodyIds "dangling MIR terminator body"
    let kind ←
      remapTerminatorKind bodyIds blockIds placeIds unsupportedIds row.kind
    return { row with id, body, kind }

def normalizeBlocks
    (bodyIds blockIds statementIds terminatorIds : IdMap)
    (rows : List (MirBlock Ids)) :
    Except AnalysisError (List (MirBlock Ids)) :=
  (sortByKey MirBlock.stableKey rows).mapM fun row => do
    let id ← remapId row.id blockIds "dangling MIR block id"
    let body ← remapBodyId row.body bodyIds "dangling MIR block body"
    let statements ← row.statements.mapM fun statement =>
      remapId statement statementIds "dangling MIR block statement"
    let terminator ←
      remapId row.terminator terminatorIds "dangling MIR block terminator"
    return { row with id, body, statements, terminator }

def normalizeUnsupportedWithIds
    (bodyIds operationIds placeIds unsupportedIds : IdMap)
    (rows : List (UnsupportedSemanticFact Ids)) :
    Except AnalysisError (List (UnsupportedSemanticFact Ids)) :=
  let rows := sortByKey UnsupportedSemanticFact.stableKey rows
  rows.zipIdx.mapM fun (row, index) => do
    let expectedId ←
      remapId row.id unsupportedIds "dangling unsupported semantic id"
    if expectedId ≠ index then
      throw (invalidFact "inconsistent unsupported semantic id remap")
    let body ← row.body.mapM fun body =>
      remapBodyId body bodyIds "dangling unsupported semantic body"
    let operation ← row.operation.mapM fun operation =>
      remapId operation operationIds "dangling unsupported semantic operation"
    let affectedPlaces ← row.affectedPlaces.mapM fun place =>
      remapPlaceId place placeIds "dangling unsupported semantic place"
    return { row with id := index, body, operation, affectedPlaces }

/-! ## The whole output -/

/-- An output with its rows in order. -/
def MirOutput.normalized (output : MirOutput Ids) : MirOutput Ids where
  bodies := sortByKey MirBody.stableKey output.bodies
  blocks := sortByKey
    (fun block => toLex (block.body, toLex (block.ordinal, block.stableKey)))
    output.blocks
  statements := sortByKey
    (fun statement =>
      toLex (statement.body, toLex (statement.ordinal, statement.stableKey)))
    output.statements
  terminators := sortByKey
    (fun terminator =>
      toLex (terminator.body, toLex (terminator.ordinal, terminator.stableKey)))
    output.terminators
  places := sortByKey PlaceFact.stableKey output.places
  placeTypes := sortByKey PlaceTypeFact.place output.placeTypes
  operations := sortByKey
    (fun operation =>
      toLex (operation.body, toLex (operation.ordinal, operation.stableKey)))
    output.operations
  unsupported := sortByKey UnsupportedSemanticFact.stableKey output.unsupported

/-- The positions of rows under their ids. -/
def indexById {α : Type} (rows : List α) (id : α → Nat) : IdMap :=
  idMap id rows

/-- The rows of an output under their final ids. -/
structure SemanticStore where
  mirBodies : List (MirBody Ids)
  mirBlocks : List (MirBlock Ids)
  mirStatements : List (MirStatement Ids)
  mirTerminators : List (MirTerminator Ids)
  mirOperations : List (MirOperation Ids)
  places : List (PlaceFact Ids)
  placeTypes : List (PlaceTypeFact Ids)
  unsupportedSemantics : List (UnsupportedSemanticFact Ids)
  mirBodiesById : IdMap
  mirOperationsById : IdMap
  placesById : IdMap
  unsupportedSemanticsById : IdMap

namespace SemanticStore

/-- The store of an output, or why there is none. -/
def fromOutput (output : MirOutput Ids) : Except AnalysisError SemanticStore := do
  let output := output.normalized
  let (mirBodies, bodyIds) := normalizeBodies output.bodies
  let (places, placeIds) ← normalizePlaces bodyIds output.places
  let placeTypes ← normalizePlaceTypes placeIds output.placeTypes
  let unsupportedIds := unsupportedIdMap output.unsupported
  let (mirOperations, operationIds) ←
    normalizeOperations bodyIds placeIds unsupportedIds output.operations
  let blockIds := stableIdMap output.blocks MirBlock.stableKey MirBlock.id
  let statementIds :=
    stableIdMap output.statements MirStatement.stableKey MirStatement.id
  let terminatorIds :=
    stableIdMap output.terminators MirTerminator.stableKey MirTerminator.id
  let mirStatements ←
    normalizeStatements bodyIds operationIds statementIds output.statements
  let mirTerminators ←
    normalizeTerminators bodyIds blockIds placeIds unsupportedIds terminatorIds
      output.terminators
  let mirBlocks ←
    normalizeBlocks bodyIds blockIds statementIds terminatorIds output.blocks
  let unsupportedSemantics ←
    normalizeUnsupportedWithIds bodyIds operationIds placeIds unsupportedIds
      output.unsupported
  return {
    mirBodiesById := indexById mirBodies MirBody.id
    mirOperationsById := indexById mirOperations MirOperation.id
    placesById := indexById places PlaceFact.id
    unsupportedSemanticsById :=
      indexById unsupportedSemantics UnsupportedSemanticFact.id
    mirBodies, mirBlocks, mirStatements, mirTerminators, mirOperations, places
    placeTypes, unsupportedSemantics }

end SemanticStore
end Mir
end Polint
