import Lehce.Code.Scope
import Lehce.Code.Unit

/-!
# Images

An image is a unit as it is stored. It holds the code, the storages and the functions;
constants that are functions are stored by name only, and are linked again when the
image is loaded. How an image becomes bytes, and bytes an image, is left to a codec.
-/

namespace Lehce

/-- A constant in an image. -/
structure StoredValue where
  kind : Nat := 0
  number : Float := 0
  text : String := ""
  bool : Bool := false
  native : Bool := false
  deriving Inhabited

/-- A storage in an image. -/
structure StoredStorage where
  name : String := ""
  arity : Int := 0
  constants : List StoredValue := []
  locals : List String := []
  deriving Inhabited

/-- A function in an image. -/
structure StoredFunction where
  name : String := ""
  entry : Int := 0
  storage : Int := 0
  arity : Int := 0
  deriving Repr, DecidableEq, Inhabited

/-- A unit as it is stored. -/
structure Image where
  version : Int := 0
  opcodes : List UInt8 := []
  storages : List StoredStorage := []
  functions : List StoredFunction := []
  deriving Inhabited

/-- What writes images as bytes and reads them from bytes; a problem is told as a text. -/
structure Image.Codec where
  encode : Image → Except String (List UInt8)
  decode : List UInt8 → Except String Image

/-- Why a unit cannot be stored, or an image cannot be loaded. -/
inductive ImageError where
  | undecodable (problem : String)
  | unencodable (problem : String)
  | version (version : Int)
  | badKind (kind : Nat)
  | missingNative (name : String)
  | missingFunction (name : String)
  | unstorable (text : String)
  deriving Repr, DecidableEq

/-- The text of an image error. -/
def ImageError.message : ImageError → String
  | undecodable problem => "unmarshal image: " ++ problem
  | unencodable problem => problem
  | version v => "image version " ++ toString v ++ " not supported"
  | badKind kind => "bad constant kind " ++ toString kind
  | missingNative name => "native function " ++ name ++ " not registered"
  | missingFunction name => "function " ++ name ++ " missing from image"
  | unstorable text => "constant " ++ text ++ " cannot be stored in an image"

namespace Image

/-- The version of the layout. -/
def currentVersion : Int := 1

/-- A constant as it is stored; lists and dictionaries cannot be. -/
def storeValue : Datum → Except ImageError StoredValue
  | .empty => .ok { kind := 0 }
  | .number value => .ok { kind := 1, number := value }
  | .bool value => .ok { kind := 2, bool := value }
  | .text content => .ok { kind := 3, text := content }
  | .atom name => .ok { kind := 4, text := name }
  | .function ref => .ok { kind := 7, text := ref.name, native := ref.native }
  | other => .error (.unstorable other.display)

/-- A unit as an image, with its functions in the order of their names. -/
def ofUnit (unit : Code.Unit) : Except ImageError Image := do
  let storages ← unit.storages.toList.mapM fun storage => do
    let constants ← storage.constants.toList.mapM storeValue
    return ({ name := storage.name
              arity := storage.arity
              constants
              locals := storage.locals.toList } : StoredStorage)
  let functions := unit.functions.map fun ref =>
    ({ name := ref.name, entry := ref.entry, storage := ref.storage, arity := ref.arity } :
      StoredFunction)
  return {
    version := currentVersion
    opcodes := unit.opcodes.toList
    storages
    functions := functions.mergeSort fun a b => !(b.name < a.name) }

/-- The functions of an image; of two with the same name the last counts. -/
def functionTable (functions : List StoredFunction) : List FunctionRef :=
  functions.foldl (fun table f =>
    let ref : FunctionRef :=
      { name := f.name, entry := f.entry, storage := f.storage, arity := f.arity }
    table.filter (·.name != f.name) ++ [ref]) []

/-- A constant as it is used. -/
def loadValue (natives : Code.Resolver) (table : List FunctionRef) (value : StoredValue) :
    Except ImageError Datum :=
  match value.kind with
  | 0 => .ok .empty
  | 1 => .ok (.number value.number)
  | 2 => .ok (.bool value.bool)
  | 3 => .ok (.text value.text)
  | 4 => .ok (.atom value.text)
  | 7 =>
    if value.native then
      match Code.resolveNative natives value.text with
      | some (_, ref) => .ok (.function ref)
      | none => .error (.missingNative value.text)
    else match table.find? (·.name == value.text) with
      | some ref => .ok (.function ref)
      | none => .error (.missingFunction value.text)
  | kind => .error (.badKind kind)

/-- The unit of an image. -/
def toUnit (natives : Code.Resolver) (image : Image) : Except ImageError Code.Unit := do
  if image.version ≠ currentVersion then throw (.version image.version)
  let table := functionTable image.functions
  let storages ← image.storages.zipIdx.mapM fun (stored, index) => do
    let constants ← stored.constants.mapM (loadValue natives table)
    return ({ index := index
              name := stored.name
              arity := stored.arity
              constants := constants.toArray
              locals := stored.locals.toArray } : Code.Storage)
  return { opcodes := image.opcodes.toArray, storages := storages.toArray, functions := table }

/-- Loads a unit from bytes. -/
def load (codec : Codec) (natives : Code.Resolver) (bytes : List UInt8) :
    Except ImageError Code.Unit :=
  match codec.decode bytes with
  | .ok image => image.toUnit natives
  | .error problem => .error (.undecodable problem)

/-- The bytes of a unit. -/
def save (codec : Codec) (unit : Code.Unit) : Except ImageError (List UInt8) := do
  let image ← ofUnit unit
  (codec.encode image).mapError .unencodable

end Image

end Lehce
