import Hf2l.Exchange.Store.Rows

/-!
# `Hf2l.Exchange.Store.Check`: bounded metadata, kinds and attachment paths

The checks of `schemas.py` that the commands make on their arguments. Validation against a
JSON Schema and the encoded length of a document are functions of `Env`.
-/

set_option autoImplicit false

namespace Hf2l.Exchange

def maxMetadataBytes : Nat := 65536

def maxAttachments : Nat := 256

/-- `5 * 1024**4`. -/
def maxAttachmentSize : Int := 5497558138880

def metadataSize (env : Env) (metadata : Json) : Except Error Nat :=
  match metadata with
  | .obj _ => do
    refuse (metadata.depth > 16) (err 422 "metadata_too_deep")
    refuse (env.canonicalLength metadata > maxMetadataBytes) (err 422 "metadata_too_large")
    return env.canonicalLength metadata
  | _ => .error (err 422 "metadata_must_be_object")

def validateMetadata (env : Env) (metadata schema : Json) : Except Error Nat := do
  let size ← metadataSize env metadata
  refuse (env.schemaAccepts schema metadata = false) (err 422 "metadata_schema_mismatch")
  return size

/-- The body of metadata that `metadataSize` accepted. -/
def Json.fields : Json → Fields
  | .obj fields => fields
  | _ => []

/-- `path.split("/")`, on characters. -/
def pathParts (path : String) : List (List Char) := path.toList.splitOn '/'

def pathAllowed (path : String) : Bool :=
  path ≠ "" && path.utf8ByteSize ≤ 256 && path.toList.head? ≠ some '/' &&
    path.toList.all (fun c => c ≠ '\\' && c ≠ ':' && 32 ≤ c.toNat && c.toNat ≠ 127) &&
    (pathParts path).all (fun part => part ≠ [] && part ≠ ['.'] && part ≠ ['.', '.'])

def validatePath (path : String) : Except Error Unit :=
  refuse (pathAllowed path = false) (err 422 "invalid_attachment_path")

def wordChar (c : Char) : Bool := c.isAlphanum

/-- `[A-Za-z0-9][A-Za-z0-9_.-]{0,127}`. -/
def kindAllowed (kind : String) : Bool :=
  match kind.toList with
  | [] => false
  | c :: rest => wordChar c && rest.length ≤ 127 &&
      rest.all fun d => wordChar d || d = '_' || d = '.' || d = '-'

def validateKind (kind : String) : Except Error Unit :=
  refuse (kindAllowed kind = false) (err 422 "invalid_kind")

def validateReferenceName (name : String) : Except Error Unit :=
  refuse (kindAllowed name = false) (err 422 "invalid_reference_name")

/-- 64 lower-case hexadecimal digits. -/
def digestAllowed (digest : String) : Bool :=
  digest.length = 64 && digest.toList.all fun c => c.isDigit || ('a' ≤ c && c ≤ 'f')

/-- `[A-Za-z0-9_-]{43}`. -/
def thumbprintAllowed (thumbprint : String) : Bool :=
  thumbprint.length = 43 && thumbprint.toList.all fun c => wordChar c || c = '_' || c = '-'

/-- The first path contains the second as a directory. -/
def inDirectory (path directory : String) : Bool := (directory ++ "/").toList.isPrefixOf path.toList

/-- Two folded paths name one file, or one is a directory of the other. -/
def pathsClash (a b : String) : Bool := a = b || inDirectory a b || inDirectory b a

/-- The loop over the attachments of a new record: each path is well formed and apart from
those before it, each size and digest is well formed. The result is the sum of the sizes. -/
def checkAttachments (env : Env) : List String → List AttachmentBody → Except Error Nat
  | _, [] => .ok 0
  | paths, a :: rest => do
    validatePath a.path
    refuse (paths.any (pathsClash (env.casefold a.path)) = true)
      (err 422 "duplicate_attachment_path")
    refuse (a.size < 0 ∨ a.size > maxAttachmentSize) (err 422 "invalid_attachment_size")
    refuse (digestAllowed a.sha256 = false) (err 422 "invalid_attachment_digest")
    let amount ← checkAttachments env (env.casefold a.path :: paths) rest
    return a.size.toNat + amount

/-- `max(part_size, ceil(size / 10000 / 1048576) * 1048576)`. -/
def partSizeOf (env : Env) (size : Nat) : Nat :=
  max env.partSize ((size + (10000 * 1048576 - 1)) / (10000 * 1048576) * 1048576)

end Hf2l.Exchange
