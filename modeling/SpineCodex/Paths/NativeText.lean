import SpineCodex.Paths.PathUri

/-!
# Native spellings of path URIs

A URI is rendered as native path text in the convention of its shape: its segments are decoded once
and joined with the separators of the convention. Text for configuration must say the same path when
it is read back, and a directory put in front of a glob must hold no character with a meaning there.
How invalid UTF-8 and UTF-16 are replaced is a parameter.
-/

namespace SpineCodex

/-- The replacement of invalid text, besides the rules of the `url` crate. -/
structure TextRules extends PathUri.UrlRules where
  utf8Lossy : List UInt8 → List Char
  utf16Lossy : List ℕ → List Char

def base64Alphabet : List Char :=
  "ABCDEFGHIJKLMNOPQRSTUVWXYZabcdefghijklmnopqrstuvwxyz0123456789-_".toList

/-- The URL-safe encoding without padding. -/
def base64 : List UInt8 → List Char
  | a :: b :: c :: rest =>
    let n := a.toNat * 65536 + b.toNat * 256 + c.toNat
    digit (n / 262144) :: digit (n / 4096) :: digit (n / 64) :: digit n :: base64 rest
  | [a, b] =>
    let n := a.toNat * 1024 + b.toNat * 4
    [digit (n / 4096), digit (n / 64), digit n]
  | [a] =>
    let n := a.toNat * 16
    [digit (n / 64), digit n]
  | [] => []
where
  digit (n : ℕ) : Char := base64Alphabet.getD (n % 64) 'A'

inductive LegacyAppPathStringError where
  | opaqueFallback (path : List Char)
  | incompatibleConvention (path : List Char) (convention : PathConvention)
  | unsupportedConfigPath (path : List Char) (convention : PathConvention)
  | pathUri (error : PathUriParseError)
deriving DecidableEq

namespace PathUri

/-- The percent-encoded path of the URI. -/
def encodedPath : PathUri → List Char
  | fallback bytes => "/%00/bad/path/".toList ++ base64 bytes
  | file _ segments => segments.flatMap ('/' :: ·)

def decodedPathBytes (path : PathUri) : List UInt8 := decodeBinary path.encodedPath

/-- The URI as text. -/
def display (path : PathUri) : List Char :=
  "file://".toList ++ path.hostOf.getD [] ++ path.encodedPath

variable (rules : TextRules)

/-! ## Rendering -/

def decodeNativeSegment (segment : List Char) : List Char := rules.utf8Lossy (decodeBinary segment)

def renderPosixPath (host : Option (List Char)) (segments : List (List Char)) :
    Except LegacyAppPathStringError (List Char) :=
  if host.isSome then .error (.incompatibleConvention (file host segments).display .posix)
  else .ok (segments.flatMap fun segment => '/' :: decodeNativeSegment rules segment)

/-- A share or a drive, then the other segments; a bare drive gets its separator. -/
def renderWindowsPath (host : Option (List Char)) (segments : List (List Char)) :
    Except LegacyAppPathStringError (List Char) :=
  let incompatible := .error (.incompatibleConvention (file host segments).display .windows)
  let below (rest : List (List Char)) : List Char :=
    rest.flatMap fun segment => '\\' :: decodeNativeSegment rules segment
  match segments with
  | [] => incompatible
  | first :: rest =>
    let first := decodeNativeSegment rules first
    match host with
    | some host =>
      if first = [] then incompatible
      else .ok ("\\\\".toList ++ host ++ '\\' :: first ++ below rest)
    | none =>
      match first with
      | [drive, ':'] =>
        if isAsciiAlphabetic drive then
          .ok (drive :: ':' :: if rest = [] then ['\\'] else below rest)
        else incompatible
      | _ => incompatible

/-- The code units of UTF-16 text, low byte first. -/
def wideUnits : List UInt8 → List ℕ
  | low :: high :: rest => (low.toNat + 256 * high.toNat) :: wideUnits rest
  | _ => []

def renderWindowsOpaqueFallback (bytes : List UInt8) : Option (List Char) :=
  if bytes.length % 2 ≠ 0 then none
  else
    let wide := wideUnits bytes
    let separator (unit : ℕ) : Bool := unit == 92 || unit == 47
    let hasDriveRoot := match wide with
      | drive :: colon :: third :: _ =>
        ((65 ≤ drive && drive ≤ 90) || (97 ≤ drive && drive ≤ 122)) && colon == 58 && separator third
      | _ => false
    let hasNamespaceOrUncRoot := match wide with
      | first :: second :: _ => separator first && separator second
      | _ => false
    if hasDriveRoot || hasNamespaceOrUncRoot then some (rules.utf16Lossy wide) else none

def renderOpaqueFallback (bytes : List UInt8) (convention : PathConvention) :
    Except LegacyAppPathStringError (List Char) :=
  let rendered := match convention with
    | .posix => if bytes.head? = some 47 then some (rules.utf8Lossy bytes) else none
    | .windows => renderWindowsOpaqueFallback rules bytes
  match rendered with
  | some text => .ok text
  | none => .error (.opaqueFallback (fallback bytes).display)

/-- The URI in the syntax of a convention. -/
def nativeText (convention : PathConvention) : PathUri → Except LegacyAppPathStringError (List Char)
  | fallback bytes => renderOpaqueFallback rules bytes convention
  | file host segments =>
    match convention with
    | .posix => renderPosixPath rules host segments
    | .windows => renderWindowsPath rules host segments

/-- The URI in the syntax of its shape, and as it is where it has none. -/
def inferredNativePathString (path : PathUri) : List Char :=
  match path.inferPathConvention with
  | none => path.display
  | some convention => (path.nativeText rules convention).toOption.getD path.display

/-! ## Validation -/

def containsGlobMetacharacter (path : List Char) : Bool :=
  path.any fun c => c == '*' || c == '?' || c == '[' || c == ']' || c == '\x7b' || c == '\x7d'

/-- Spellings that a later conversion could read as another target are refused. -/
def validateConfigPathText (input : List Char) (convention : PathConvention) :
    Except LegacyAppPathStringError Unit :=
  let nativeInput := (normalizeWindowsDevicePath input).getD input
  let windows := convention == .windows
  let afterDrive : List Char → List Char
    | drive :: ':' :: rest => if isAsciiAlphabetic drive then rest else drive :: ':' :: rest
    | segment => segment
  let componentColon := match convention.pathSegments nativeInput with
    | first :: rest => (afterDrive first).contains ':' || rest.any (·.contains ':')
    | [] => false
  let mixedHome := (convention.homeRelativeSuffix input).any fun suffix =>
    match suffix with
    | '/' :: _ => (suffix.dropWhile (· == '/')).head? == some '\\'
    | '\\' :: _ => (suffix.dropWhile (· == '\\')).head? == some '/'
    | _ => false
  let bareDrive := match nativeInput with
    | [drive, ':'] => isAsciiAlphabetic drive
    | _ => false
  if input.contains '\x00' || (windows && (componentColon || mixedHome || bareDrive)) then
    .error (.unsupportedConfigPath input convention)
  else .ok ()

/-- The URI has a lossless native spelling in the convention. -/
def validateConfigPath (path : PathUri) (convention : PathConvention) :
    Except LegacyAppPathStringError Unit :=
  if path.inferPathConvention ≠ some convention then
    .error (.incompatibleConvention path.display convention)
  else
    let bytes := path.decodedPathBytes
    if path.lexicalDepth.isNone || bytes.contains 0 || !(ByteArray.mk bytes.toArray).validateUTF8 then
      .error (.pathUri (.invalidFileUriPath path.display))
    else path.nativeText rules convention >>= fun text => validateConfigPathText text convention

/-- The directory can stand in front of a glob unchanged. -/
def validateGlobDirectory (path : PathUri) (convention : PathConvention) :
    Except LegacyAppPathStringError Unit := do
  path.validateConfigPath rules convention
  let text ← path.nativeText rules convention
  if containsGlobMetacharacter text || (convention == .posix && text.contains '\\') then
    .error (.unsupportedConfigPath text convention)
  else .ok ()

end PathUri

end SpineCodex
