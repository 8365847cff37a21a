import SpineCodex.Lib.Text

/-!
# Path URIs

A `file:` URI is a host and percent-encoded path segments. Native paths without such a spelling are
kept as bytes in a fallback URI that lexical operations do not look into. The convention of a URI,
POSIX or Windows, is inferred from its shape. Containment compares decoded segments, and a segment
that decodes to a separator has no unambiguous position. How the `url` crate appends a component to
a path, and what it makes of a host, are parameters.
-/

namespace SpineCodex

/-! ## Percent encoding -/

def hexDigit (c : Char) : Option ℕ :=
  let n := c.toNat
  if 48 ≤ n ∧ n ≤ 57 then some (n - 48)
  else if 97 ≤ n ∧ n ≤ 102 then some (n - 87)
  else if 65 ≤ n ∧ n ≤ 70 then some (n - 55)
  else none

/-- The bytes of a percent-encoded text; an incomplete escape stands for itself. -/
def decodeBinary : List Char → List UInt8
  | '%' :: high :: low :: rest =>
    match hexDigit high, hexDigit low with
    | some h, some l => UInt8.ofNat (16 * h + l) :: decodeBinary rest
    | _, _ => 37 :: decodeBinary (high :: low :: rest)
  | c :: rest => asBytes [c] ++ decodeBinary rest
  | [] => []

/-- The decoded text where it is valid UTF-8, and the encoded one otherwise. -/
def decodeUriPath (segment : List Char) : List UInt8 :=
  let decoded := decodeBinary segment
  if (ByteArray.mk decoded.toArray).validateUTF8 then decoded else asBytes segment

/-! ## URIs -/

inductive PathConvention where
  | posix
  | windows
deriving DecidableEq

namespace PathConvention

def isSeparator : PathConvention → Char → Bool
  | posix, c => c == '/'
  | windows, c => c == '/' || c == '\\'

/-- The segments of native path text; empty ones are kept. -/
def pathSegments (convention : PathConvention) (path : List Char) : List (List Char) :=
  path.splitOnP convention.isSeparator

/-- What follows `~` in a home-relative path. -/
def homeRelativeSuffix (convention : PathConvention) : List Char → Option (List Char)
  | '~' :: suffix =>
    match suffix with
    | [] => some []
    | c :: _ => if convention.isSeparator c then some suffix else none
  | _ => none

/-- The segments that no path of the convention can leave: a drive or a share. -/
def anchorDepth : PathConvention → ℕ
  | posix => 0
  | windows => 1

end PathConvention

inductive PathUri where
  /-- The native bytes of a path without an ordinary URI. -/
  | fallback (bytes : List UInt8)
  /-- A host, and the encoded segments that the slashes of the path separate. -/
  | file (host : Option (List Char)) (segments : List (List Char))
deriving DecidableEq

inductive PathUriParseError where
  | invalidFileUriPath (path : List Char)
  | invalidFileUri (uri : PathUri)
  | joinPathMustBeDescendant (path : List Char)
deriving DecidableEq

def isAsciiAlphabetic (c : Char) : Bool :=
  (65 ≤ c.toNat && c.toNat ≤ 90) || (97 ≤ c.toNat && c.toNat ≤ 122)

/-- A drive letter with a plain or an encoded colon. -/
def isWindowsDriveUriSegment : List Char → Bool
  | [drive, ':'] => isAsciiAlphabetic drive
  | [drive, '%', '3', c] => isAsciiAlphabetic drive && (c == 'A' || c == 'a')
  | _ => false

/-- The convention of fallback bytes: a POSIX root, or a Windows drive or double separator in
UTF-16. -/
def inferOpaquePathConvention (bytes : List UInt8) : Option PathConvention :=
  let slash : UInt8 := 47
  if bytes.head? = some slash ∧ bytes[1]? ≠ some 0 then some .posix
  else if bytes.length % 2 ≠ 0 then none
  else match bytes with
    | low :: high :: low' :: high' :: _ =>
      let alphabetic := (65 ≤ low && low ≤ 90) || (97 ≤ low && low ≤ 122)
      let separator (c d : UInt8) : Bool := d == 0 && (c == 92 || c == slash)
      let drive := high == 0 && alphabetic && low' == 58 && high' == 0
      if drive || (separator low high && separator low' high') then some .windows else none
    | _ => none

namespace PathUri

def isOpaque : PathUri → Bool
  | fallback _ => true
  | file _ _ => false

def inferPathConvention : PathUri → Option PathConvention
  | fallback bytes => inferOpaquePathConvention bytes
  | file host segments =>
    if host.isSome then some .windows
    else if (segments.find? (!·.isEmpty)).any isWindowsDriveUriSegment then some .windows
    else some .posix

/-- The non-empty segments, unless one of them decodes to a separator. -/
def containmentPathSegments (convention : PathConvention) (segments : List (List Char)) :
    Option (List (List Char)) :=
  let segments := segments.filter (!·.isEmpty)
  let ambiguous (segment : List Char) : Bool :=
    (decodeBinary segment).any fun byte => byte == 47 || (convention == .windows && byte == 92)
  if segments.any ambiguous then none else some segments

/-- The bytes by which Windows paths are compared, case apart. -/
def windowsIdentityPathBytes : PathUri → Option (List UInt8)
  | fallback _ => none
  | file host segments =>
    if (file host segments).inferPathConvention ≠ some .windows ∨
        segments.any (fun segment => (decodeBinary segment).any fun byte => byte == 47 || byte == 92)
    then none
    else some (segments.flatMap fun segment => 47 :: decodeBinary segment)

def hostOf : PathUri → Option (List Char)
  | fallback _ => none
  | file host _ => host

/-- Equality of URIs: the same spelling, or the same Windows path. -/
def eq (path other : PathUri) : Bool :=
  path == other ||
    match path.windowsIdentityPathBytes, other.windowsIdentityPathBytes with
    | some bytes, some bytes' => path.hostOf == other.hostOf && sameIgnoreAsciiCase bytes bytes'
    | _, _ => false

def sameSegment : PathConvention → List Char → List Char → Bool
  | .posix, path, base => decodeBinary path == decodeBinary base
  | .windows, path, base =>
    sameIgnoreAsciiCase (asBytes path) (asBytes base) ||
      sameIgnoreAsciiCase (decodeUriPath path) (decodeUriPath base)

def nativePathSegmentsStartWith (pathSegments baseSegments : List (List Char))
    (convention : PathConvention) : Bool :=
  baseSegments.length ≤ pathSegments.length &&
    (pathSegments.zip baseSegments).all fun (path, base) => sameSegment convention path base

/-- The path is lexically at or below the base. -/
def startsWith (path base : PathUri) : Bool :=
  path.eq base ||
    match path, base with
    | file host segments, file host' segments' =>
      if host ≠ host' ∨ path.inferPathConvention ≠ base.inferPathConvention then false
      else
        let convention := path.inferPathConvention.getD .posix
        match containmentPathSegments convention segments,
            containmentPathSegments convention segments' with
        | some pathSegments, some baseSegments =>
          nativePathSegmentsStartWith pathSegments baseSegments convention
        | _, _ => false
    | _, _ => false

/-- The number of non-empty segments of a URI that is safe for containment. -/
def lexicalDepth : PathUri → Option ℕ
  | fallback _ => none
  | file host segments => do
    let convention ← (file host segments).inferPathConvention
    let segments ← containmentPathSegments convention segments
    return segments.length

/-- Whether the two subtrees meet, if that can be told. -/
def overlaps (path other : PathUri) : Option Bool :=
  if path.eq other then some true
  else do
    let _ ← path.lexicalDepth
    let _ ← other.lexicalDepth
    return path.startsWith other || other.startsWith path

/-! ## Segments of a URL -/

/-- The last segment goes if it is empty, unless it is the only one. -/
def popIfEmpty (segments : List (List Char)) : List (List Char) :=
  if 1 < segments.length ∧ segments.getLast? = some [] then segments.dropLast else segments

/-- The last segment goes; the only one becomes empty. -/
def popSegment (segments : List (List Char)) : List (List Char) :=
  if 1 < segments.length then segments.dropLast else [[]]

def depthOf (segments : List (List Char)) : ℕ := (segments.filter (!·.isEmpty)).length

/-- The parent, down to the root, a drive or a share. -/
def parent : PathUri → Option PathUri
  | fallback _ => none
  | file host segments => do
    let convention ← (file host segments).inferPathConvention
    if depthOf segments ≤ convention.anchorDepth then none
    else some (file host (popSegment (popIfEmpty segments)))

/-- The last of the successive parents. -/
def lastAncestor : ℕ → PathUri → PathUri
  | 0, path => path
  | fuel + 1, path =>
    match path.parent with
    | some up => lastAncestor fuel up
    | none => path

/-- The root above a path; each step up removes a segment. -/
def root : PathUri → PathUri
  | fallback bytes => fallback bytes
  | file host segments => lastAncestor segments.length (file host segments)

/-- The decoded last segment. -/
def basename : PathUri → Option (List UInt8)
  | fallback _ => none
  | file _ segments => (segments.reverse.find? (!·.isEmpty)).map decodeUriPath

/-! ## Joining -/

/-- What the `url` crate does with a component pushed to a path, and with a host. -/
structure UrlRules where
  push : List (List Char) → List Char → List (List Char)
  setHost : List Char → Option (Option (List Char))

/-- A drive letter in front is written in upper case. -/
def withNormalizedWindowsDriveLetter : List (List Char) → List (List Char)
  | [] => []
  | [] :: rest => [] :: withNormalizedWindowsDriveLetter rest
  | segment :: rest =>
    if isWindowsDriveUriSegment segment then
      match segment with
      | drive :: more => (drive.toUpper :: more) :: rest
      | [] => segment :: rest
    else segment :: rest

/-- A null byte is refused and the local host dropped. -/
def tryFrom (host : Option (List Char)) (segments : List (List Char)) :
    Except PathUriParseError PathUri :=
  if segments.any fun segment => (decodeBinary segment).contains 0 then
    .error (.invalidFileUri (file host segments))
  else
    let host := if host = some "localhost".toList then none else host
    .ok (file host (if host.isNone then withNormalizedWindowsDriveLetter segments else segments))

variable (url : UrlRules)

/-- Segments of native text with dots resolved, and whether a separator ended them. -/
def normalizeSegments (anchor : ℕ) : List (List Char) → List (List Char) → Bool →
    List (List Char) × Bool
  | [], done, trailing => (done, trailing)
  | segment :: rest, done, _ =>
    if segment = [] then normalizeSegments anchor rest done true
    else if segment = ".".toList then normalizeSegments anchor rest done false
    else if segment = "..".toList then
      normalizeSegments anchor rest (if anchor < done.length then done.dropLast else done) false
    else normalizeSegments anchor rest (done ++ [segment]) false

def pathUriFromSegments (convention : PathConvention) (host : Option (List Char))
    (segments : List (List Char)) : Option PathUri := do
  let parsedHost ← match host with
    | some host => url.setHost host
    | none => some none
  let (normalized, trailing) := normalizeSegments convention.anchorDepth segments [] false
  let normalized :=
    if trailing || (convention == .windows && host.isNone && normalized.length == 1)
    then normalized ++ [[]] else normalized
  (tryFrom parsedHost (normalized.foldl url.push [[]])).toOption

def parsePosixPath : List Char → Option PathUri
  | '/' :: path =>
    if '\x00' ∈ path then some (fallback (asBytes ('/' :: path)))
    else pathUriFromSegments url .posix none (path.splitOn '/')
  | _ => none

/-- The UTF-16 encoding, low byte first. -/
def utf16Bytes (path : List Char) : List UInt8 :=
  path.flatMap fun c =>
    let unit (n : ℕ) : List UInt8 := [UInt8.ofNat (n % 256), UInt8.ofNat (n / 256)]
    let n := c.toNat
    if n < 0x10000 then unit n
    else unit (0xd800 + (n - 0x10000) / 0x400) ++ unit (0xdc00 + (n - 0x10000) % 0x400)

def windowsOpaquePathUri (path : List Char) : PathUri := fallback (utf16Bytes path)

def isDriveAbsolute : List Char → Bool
  | drive :: ':' :: c :: _ => isAsciiAlphabetic drive && PathConvention.windows.isSeparator c
  | _ => false

/-- Drive and share aliases of the device namespaces. -/
def normalizeWindowsDevicePath (path : List Char) : Option (List Char) :=
  match "\\\\?\\UNC\\".toList.isPrefixOf? path, "\\\\.\\UNC\\".toList.isPrefixOf? path with
  | some share, _ => some ("\\\\".toList ++ share)
  | none, some share => some ("\\\\".toList ++ share)
  | none, none =>
    match ("\\\\?\\".toList.isPrefixOf? path).filter isDriveAbsolute with
    | some drive => some drive
    | none => ("\\\\.\\".toList.isPrefixOf? path).filter isDriveAbsolute

def parseUnnormalizedWindowsPath (path : List Char) : Option PathUri :=
  let separator := PathConvention.windows.isSeparator
  let usesNamespace := match path with
    | a :: b :: c :: d :: _ => separator a && separator b && (c == '.' || c == '?') && separator d
    | _ => false
  if usesNamespace || path.contains '\x00' then some (windowsOpaquePathUri path)
  else if isDriveAbsolute path then
    pathUriFromSegments url .windows none (path.take 2 :: (path.drop 3).splitOnP separator)
  else match path with
    | a :: b :: rest =>
      if separator a && separator b then
        match rest.splitOnP separator with
        | host :: share :: components =>
          if host = [] ∨ share = [] then none
          else if oneOfDots host || oneOfDots share then some (windowsOpaquePathUri path)
          else
            let uri := (pathUriFromSegments url .windows (some host) (share :: components)).filter
              fun uri => uri.hostOf.any fun parsed => sameIgnoreAsciiCase (asBytes parsed) (asBytes host)
            some (uri.getD (windowsOpaquePathUri path))
        | _ => none
      else none
    | _ => none
where
  oneOfDots (segment : List Char) : Bool := segment == ".".toList || segment == "..".toList

def parseWindowsPath (path : List Char) : Option PathUri :=
  match normalizeWindowsDevicePath path with
  | none => parseUnnormalizedWindowsPath url path
  | some normalized =>
    let isShare := "\\\\".toList.isPrefixOf normalized
    let unnamed (segment : Option (List Char)) : Bool :=
      segment.all fun segment => segment == [] || parseUnnormalizedWindowsPath.oneOfDots segment
    let components := (normalized.drop 2).splitOnP PathConvention.windows.isSeparator
    if isShare && (unnamed components[0]? || unnamed components[1]?) then
      some (windowsOpaquePathUri path)
    else
      let uri := (parseUnnormalizedWindowsPath url normalized).filter fun uri =>
        uri.inferPathConvention == some .windows && !uri.isOpaque &&
          (!isShare || uri.hostOf.any (!·.isEmpty))
      some (uri.getD (windowsOpaquePathUri path))

/-- An absolute native path, as a fallback URI where its ordinary spelling would suggest the other
convention. -/
def fromAbsoluteNativePath (path : List Char) (convention : PathConvention) : Option PathUri := do
  let uri ← match convention with
    | .posix => parsePosixPath url path
    | .windows => parseWindowsPath url path
  if uri.hostOf ≠ some [] ∧ uri.inferPathConvention = some convention then return uri
  else return match convention with
    | .posix => fallback (asBytes path)
    | .windows => windowsOpaquePathUri path

theorem fromAbsoluteNativePath_of_relative {path : List Char} (h : path.head? ≠ some '/') :
    fromAbsoluteNativePath url path .posix = none := by
  have hnone : parsePosixPath url path = none := by
    rw [parsePosixPath]
    intro rest hrest
    exact h (hrest ▸ rfl)
  simp [fromAbsoluteNativePath, hnone]

/-- Components appended to the segments of a URL, with dots resolved above the anchor. -/
def joinComponents (anchor : ℕ) : List (List Char) → List (List Char) → ℕ → List (List Char)
  | [], segments, _ => segments
  | component :: rest, segments, depth =>
    if component = [] ∨ component = ".".toList then joinComponents anchor rest segments depth
    else if component = "..".toList then
      if anchor < depth then joinComponents anchor rest (popSegment segments) (depth - 1)
      else joinComponents anchor rest segments depth
    else joinComponents anchor rest (url.push segments component) (depth + 1)

/-- The first segment names the drive that the text starts with. -/
def sameDrive (segments : List (List Char)) (drive : Char) : Bool :=
  (segments.find? (!·.isEmpty)).any fun segment =>
    isWindowsDriveUriSegment segment && segment.head?.any fun c => c.toLower == drive.toLower

/-- Native absolute or relative path text resolved against a URI. -/
def join (base : PathUri) (path : List Char) : Except PathUriParseError PathUri :=
  if '\x00' ∈ path then .error (.invalidFileUriPath path)
  else if path = [] then .ok base
  else match base.inferPathConvention with
    | none => .error (.invalidFileUri base)
    | some convention =>
      match fromAbsoluteNativePath url path convention with
      | some absolute => .ok absolute
      | none =>
        let relative : Option (List Char) := match convention, path, base with
          | .windows, drive :: ':' :: rest, file _ segments =>
            if isAsciiAlphabetic drive then
              if sameDrive segments drive then some rest else none
            else some path
          | .windows, drive :: ':' :: _, fallback _ => if isAsciiAlphabetic drive then none else some path
          | _, _, _ => some path
        match relative, base with
        | none, _ => .error (.invalidFileUriPath path)
        | some _, fallback bytes => .error (.invalidFileUri (fallback bytes))
        | some relative, file host segments =>
          let depth := depthOf segments
          let separator := PathConvention.windows.isSeparator
          let rootRelative := match convention, relative with
            | .windows, c :: rest => separator c && !rest.head?.any separator
            | _, _ => false
          let segments := popIfEmpty segments
          let (segments, depth) :=
            if rootRelative then
              (Nat.iterate popSegment (depth - convention.anchorDepth) segments,
                min depth convention.anchorDepth)
            else (segments, depth)
          tryFrom host
            (joinComponents url convention.anchorDepth (convention.pathSegments relative) segments depth)

/-- Relative native path text that stays at or below a URI. -/
def joinDescendant (base : PathUri) (path : List Char) : Except PathUriParseError PathUri := do
  let descendant ← base.join url path
  let windows := base.inferPathConvention == some .windows
  let leaves := path.head? == some '/' ||
    (windows && (path.head? == some '\\' ||
      (PathConvention.windows.pathSegments path).any (·.contains ':'))) ||
    !descendant.startsWith base
  if leaves then .error (.joinPathMustBeDescendant path) else .ok descendant

/-- The rules of the `url` crate for plain segments and hosts. -/
def plainUrl : UrlRules where
  push segments component := if segments = [[]] then [component] else segments ++ [component]
  setHost host := some (some host)

/-- A local file. -/
def localFile (segments : List String) : PathUri := .file none (segments.map (·.toList))

end PathUri

end SpineCodex
