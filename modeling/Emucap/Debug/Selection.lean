import Emucap.Lib.Checked
import Emucap.Lib.Json

/-!
# Selecting debug targets and state groups

`debug_selection.rs`: what an adapter advertises is read from its greeting, a request names CPU targets, disassembly
modes and state groups up to ASCII case, and a `get_state` response is cut down to the groups that were asked for. The
texts of `serde` and of `{:?}` are parameters.
-/

namespace Emucap.Debug

open Emucap.Lib

structure CpuTarget where
  id : String
  aliases : List String
  default : Bool
  disassemblyModes : List String
  deriving DecidableEq

/-- What other code writes into the errors. -/
structure Texts where
  invalidTarget : Json → String
  debug : String → String

/-! ## Names -/

def toAsciiLowercase (name : String) : List Char := name.toList.map Char.toLower

def eqIgnoreAsciiCase (a b : String) : Bool := toAsciiLowercase a == toAsciiLowercase b

def containsName (values : List String) (wanted : String) : Bool := values.any (eqIgnoreAsciiCase · wanted)

def isControl (c : Char) : Bool := c.toNat < 0x20 || (0x7f ≤ c.toNat && c.toNat < 0xa0)

def validateName (value field : String) : Except String Unit :=
  require (value ≠ "" ∧ value.utf8ByteSize ≤ 128 ∧ ¬ value.toList.any isControl)
    (field ++ " entries must be non-empty names without control characters")

def validateToken (t : Texts) (value field : String) : Except String Unit :=
  require (value ≠ "" ∧ value.utf8ByteSize ≤ 64 ∧ value.toList.all fun c => c.isAlphanum || c == '_' || c == '-')
    (field ++ " must be a 1..=64 byte ASCII identifier: " ++ t.debug value)

/-! ## Capabilities -/

def parseName (field : String) (found : List String × List (List Char)) (value : Json) :
    Except String (List String × List (List Char)) := do
  let name ← orError (field ++ " entries must be strings") value.asStr
  validateName name field
  require (toAsciiLowercase name ∉ found.2) (field ++ " entry is advertised more than once: " ++ name)
  return (found.1 ++ [name], toAsciiLowercase name :: found.2)

def parseNameList (value : Option Json) (field : String) : Except String (List String) :=
  match value with
  | none => .ok []
  | some value => do
    let values ← orError (field ++ " must be an array") value.asArray
    return (← values.foldlM (parseName field) ([], [])).1

def stringsOr (value : Option Json) : Option (List String) :=
  match value with
  | none => some []
  | some value => value.asArray.bind (List.mapM Json.asStr)

def CpuTarget.fromValue (value : Json) : Option CpuTarget := do
  if value.onlyFields ["id", "aliases", "default", "disassembly_modes"] then
    let target ← (← value.field 4 0 "id").asStr
    let aliases ← stringsOr (value.field 4 1 "aliases")
    let preferred ← (← value.field 4 2 "default").asBool
    let disassemblyModes ← stringsOr (value.field 4 3 "disassembly_modes")
    return ⟨target, aliases, preferred, disassemblyModes⟩
  else none

def parseTargetName (t : Texts) (names : List (List Char)) (name : String) : Except String (List (List Char)) := do
  validateToken t name "cpu target name"
  require (toAsciiLowercase name ∉ names) ("cpu target name is advertised more than once: " ++ name)
  return toAsciiLowercase name :: names

def parseMode (t : Texts) (target : String) (modes : List (List Char)) (mode : String) :
    Except String (List (List Char)) := do
  validateToken t mode "disassembly mode"
  require (toAsciiLowercase mode ∉ modes)
    ("disassembly mode is advertised more than once for " ++ target ++ ": " ++ mode)
  return toAsciiLowercase mode :: modes

def parseTarget (t : Texts) (found : List CpuTarget × List (List Char)) (value : Json) :
    Except String (List CpuTarget × List (List Char)) := do
  let target ← orError ("invalid cpu_targets entry: " ++ t.invalidTarget value) (CpuTarget.fromValue value)
  validateToken t target.id "cpu target id"
  let names ← (target.id :: target.aliases).foldlM (parseTargetName t) found.2
  let _ ← target.disassemblyModes.foldlM (parseMode t target.id) []
  return (found.1 ++ [target], names)

def parseDebugCapabilities (t : Texts) (hello : Json) : Except String (List String × List CpuTarget) := do
  let stateGroups ← parseNameList (hello.get "state_groups") "state_groups"
  match hello.get "cpu_targets" with
  | none => return (stateGroups, [])
  | some value =>
    let values ← orError "cpu_targets must be an array" value.asArray
    let (targets, _) ← values.foldlM (parseTarget t) ([], [])
    let defaults := (targets.filter (·.default)).length
    require (targets = [] ∨ defaults = 1) s!"cpu_targets must contain exactly one default target, found {defaults}"
    return (stateGroups, targets)

/-! ## State groups -/

def resolveGroupName (available resolved : List String) (requested : String) : Except String (List String) := do
  validateName requested "groups"
  let canonical ← orError
    ("unknown state group '" ++ requested ++ "'; available: " ++ String.intercalate ", " available)
    (available.find? (eqIgnoreAsciiCase · requested))
  return if containsName resolved canonical then resolved else resolved ++ [canonical]

def resolveGroupNames (requested available : List String) : Except String (List String) :=
  requested.foldlM (resolveGroupName available) []

/-- The part of a key in front of its first dot or bracket. -/
def stateKeyGroup (key : String) : Option String :=
  if key.toList.any fun c => c == '.' || c == '[' then
    some (String.ofList (key.toList.takeWhile fun c => !(c == '.' || c == '[')))
  else none

def stateKeyGroupForAvailable (key : String) (available : List String) : Option String :=
  (stateKeyGroup key).or (available.find? (eqIgnoreAsciiCase · key))

def metadata : List String :=
  ["cpu", "frame", "state", "status", "groups_applied", "rendered_frame", "rendered_frame_observed",
    "rendered_frame_synchronized", "vi_count"]

def isTopLevelGroup (member : String × Json) : Bool := member.2.isObject && !metadata.contains member.1

def topLevelGroupKeys (object : List (String × Json)) : List String :=
  (object.filter isTopLevelGroup).map Prod.fst

/-- A group is noted once, as its first key spells it. -/
def noteGroup (groups : List String) (key : String) : List String :=
  match stateKeyGroup key with
  | some group => if containsName groups group then groups else groups ++ [group]
  | none => groups

def discoverStateGroups (response : Json) : Except String (List String) := do
  let object ← orError "get_state response must be an object" response.asObject
  match OrdMap.find? "state" object with
  | some state =>
    let state ← orError "get_state.state must be an object" state.asObject
    let groups := (state.map Prod.fst).foldl noteGroup []
    let groups := if groups = [] ∧ (state ≠ [] ∨ (OrdMap.find? "cpu" object).isSome) then ["cpu"] else groups
    require (groups ≠ []) "get_state response has no discoverable state groups"
    return groups
  | none =>
    let groups := topLevelGroupKeys object
    require (groups ≠ []) "get_state response has no discoverable state groups"
    return groups

def fallbackStateGroup (hasCpuIdentity : Bool) (available : List String) : Except String String :=
  if hasCpuIdentity && available.any (eqIgnoreAsciiCase · "cpu") then .ok "cpu"
  else
    match available with
    | [group] => .ok group
    | _ => .error "unprefixed get_state keys cannot be assigned to more than one state group"

def hasExplicitGroups (state : List (String × Json)) (available : List String) : Bool :=
  state.any fun member => (stateKeyGroupForAvailable member.1 available).isSome

def projectState (hasCpuIdentity : Bool) (available applied : List String) (state : List (String × Json)) :
    Except String (List (String × Json)) :=
  if hasExplicitGroups state available then
    .ok (state.filter fun member => (stateKeyGroupForAvailable member.1 available).any (containsName applied))
  else do
    let fallback ← fallbackStateGroup hasCpuIdentity available
    return if containsName applied fallback then state else []

def projectObject (available applied : List String) (object : List (String × Json)) :
    Except String (List (String × Json)) :=
  match OrdMap.find? "state" object with
  | some state => do
    let state ← orError "get_state.state must be an object" state.asObject
    let kept ← projectState ((OrdMap.find? "cpu" object).bind Json.asStr).isSome available applied state
    return OrdMap.insert "state" (.obj kept) object
  | none => do
    let groupKeys := topLevelGroupKeys object
    require (groupKeys ≠ []) "get_state response does not expose projectable state groups"
    return object.filter fun member => !groupKeys.contains member.1 || containsName applied member.1

/-- What is advertised, or else what the response shows. -/
def availableGroups (response : Json) (advertised : List String) : Except String (List String) :=
  if advertised = [] then discoverStateGroups response else .ok advertised

def projectStateGroups (response : Json) (requested advertised : List String) : Except String Json :=
  if requested = [] then .ok response
  else do
    let available ← availableGroups response advertised
    let applied ← resolveGroupNames requested available
    let object ← orError "get_state response must be an object" response.asObject
    let object ← projectObject available applied object
    return .obj (OrdMap.insert "groups_applied" (.arr (applied.map Json.str)) object)

end Emucap.Debug
