import Livtet.Lib.PercentText
import Livtet.Pairing

/-! # Pairing links

    The text of a pairing code names a node, and may name the device. One form is
    written; the web form and two older ones are read too, and so is whatever a camera
    or a browser made of them.

    A name is written with percent escapes, which are undone in every value that is
    read. -/

namespace SyncPairLink

open SyncPairing (trim)
open Utf8Text PercentText

/-! ## The library's text functions -/

/-- `str::split_once`: what is before and after the first occurrence of `sep`. -/
def splitOnce (sep : List Char) : List Char → Option (List Char × List Char)
  | [] => none
  | c :: rest =>
      if sep.isPrefixOf (c :: rest) then some ([], (c :: rest).drop sep.length)
      else (splitOnce sep rest).map fun p => (c :: p.1, p.2)

/-- `str::trim_end_matches`. -/
def trimEndMatches (c : Char) (cs : List Char) : List Char :=
  (cs.reverse.dropWhile fun d => d == c).reverse

def toAsciiLowercase (cs : List Char) : List Char := cs.map Char.toLower

def eqIgnoreAsciiCase (cs ds : List Char) : Bool := toAsciiLowercase cs == toAsciiLowercase ds

/-- The value of a digit in a base up to sixteen. -/
def toDigit (radix : Nat) (b : UInt8) : Option Nat := (hexValue b).filter fun n => n < radix

/-- `from_str_radix` of an unsigned type: digits after a plus sign, if there is one, of a
    number below `bound`. -/
def fromStrRadix (radix bound : Nat) (text : List UInt8) : Option Nat :=
  let digits := if text.head? = some 0x2B then text.tail else text
  if digits.isEmpty then none
  else ((digits.mapM (toDigit radix)).map fun values =>
    values.foldl (fun n d => radix * n + d) 0).filter fun n => n < bound

/-! ## The link -/

def scheme : String := "livtet"
def host : String := "sync"
def legacyHost : String := "pair"
def webHost : String := "livtet.olamaelcu.net"
def protocolVersion : UInt16 := 2
def keyNodeId : String := "nodeId"
def keyNode : String := "node"
def keyVersion : String := "v"
def keyName : String := "name"

inductive PairLinkError
  | notALink (text : String)
  | unsupportedScheme (text : String)
  | unsupportedHost (text : String)
  | missingNodeId
  | invalidNodeId (text : String)
  | unsupportedVersion (version : UInt16)
  | malformedVersion (text : String)
deriving DecidableEq, Repr

structure PairLink where
  version : UInt16
  nodeId : String
  name : Option String
deriving DecidableEq, Repr

/-- A byte that `encode` leaves as it is. -/
def isUnreserved (b : UInt8) : Bool :=
  (0x41 ≤ b && b ≤ 0x5A) || (0x61 ≤ b && b ≤ 0x7A) || (0x30 ≤ b && b ≤ 0x39) || b == 0x2D ||
    b == 0x5F || b == 0x2E || b == 0x7E

def encode (value : String) : String := String.ofList (escape isUnreserved (bytes value.toList))

namespace PairLink

def new (nodeId : String) (name : Option String) : PairLink :=
  { version := protocolVersion, nodeId, name := name.filter fun name => name != "" }

def toUri (l : PairLink) : String :=
  scheme ++ "://" ++ host ++ "?" ++ keyVersion ++ "=" ++ toString l.version ++ "&" ++ keyNodeId ++
    "=" ++ encode l.nodeId ++
      match l.name with
      | some name => "&" ++ keyName ++ "=" ++ encode name
      | none => ""

def toWebUri (l : PairLink) : String :=
  "https://" ++ webHost ++ "/" ++ host ++ "?" ++ keyVersion ++ "=" ++ toString l.version ++ "&" ++
    keyNodeId ++ "=" ++ encode l.nodeId

end PairLink

/-! ## Reading escapes -/

/-- The loop of `decode`, over the bytes from the index on. The slice that holds the two
    digits panics unless it begins and ends between characters. -/
def decodeBytes : List UInt8 → Option (List UInt8)
  | [] => some []
  | b :: hi :: lo :: tail =>
      if b = percent then
        if isCharBoundary (hi :: lo :: tail) && isCharBoundary tail then
          match fromStrRadix 16 256 [hi, lo] with
          | some x => (decodeBytes tail).map (UInt8.ofNat x :: ·)
          | none => (decodeBytes (hi :: lo :: tail)).map (b :: ·)
        else none
      else (decodeBytes (hi :: lo :: tail)).map (b :: ·)
  | b :: rest => (decodeBytes rest).map (b :: ·)

/-- `none` is a panic. -/
def decode (value : String) : Option String :=
  (decodeBytes (bytes value.toList)).map fun bs => String.ofList (fromUtf8Lossy bs)

/-! ## Parsing -/

/-- Whether a scheme is that of the web form. -/
def isWebScheme (text : List Char) : Except PairLinkError Bool :=
  if text = scheme.toList then .ok false
  else if text = "https".toList ∨ text = "http".toList then .ok true
  else .error (.unsupportedScheme (String.ofList text))

/-- The host in front of the query, or the path of the site, is one of the two. -/
def checkAuthority (isWeb : Bool) (authority : List Char) : Except PairLinkError Unit :=
  let authority := trimEndMatches '/' authority
  let parts :=
    if isWeb then
      match splitOnce ['/'] authority with
      | some (host, path) => (host, trimEndMatches '/' path)
      | none => (authority, [])
    else (authority, [])
  let found := toAsciiLowercase parts.1
  let path := parts.2
  if isWeb && !eqIgnoreAsciiCase found webHost.toList then
    .error (.unsupportedHost (String.ofList found))
  else if !isWeb && !path.isEmpty then
    .error (.unsupportedHost (String.ofList (found ++ '/' :: path)))
  else if isWeb && path.isEmpty then .error (.unsupportedHost (String.ofList found))
  else
    let kind := if isWeb then toAsciiLowercase path else found
    if kind = host.toList ∨ kind = legacyHost.toList then .ok ()
    else .error (.unsupportedHost (String.ofList kind))

/-- What is before the query is checked, and the query returned. -/
def queryOf (raw : List Char) : Except PairLinkError (List Char) :=
  match splitOnce "://".toList raw with
  | none => .error (.notALink (String.ofList raw))
  | some (found, rest) =>
      let parts := (splitOnce ['?'] rest).getD (rest, [])
      match isWebScheme (toAsciiLowercase found) with
      | .error e => .error e
      | .ok isWeb => (checkAuthority isWeb parts.1).map fun _ => parts.2

/-- The parameters read so far. -/
structure Seen where
  nodeId : Option String
  version : Option UInt16
  name : Option String

/-- A parameter whose value is `value`: the first node id is taken, the last version, and
    the last name that is not empty. -/
def Seen.record (seen : Seen) (key : List Char) (value : String) : Except PairLinkError Seen :=
  if eqIgnoreAsciiCase key keyNodeId.toList || eqIgnoreAsciiCase key keyNode.toList then
    .ok { seen with nodeId := seen.nodeId.or (some value) }
  else if eqIgnoreAsciiCase key keyVersion.toList then
    match fromStrRadix 10 (2 ^ 16) (bytes value.toList) with
    | some n => .ok { seen with version := some (UInt16.ofNat n) }
    | none => .error (.malformedVersion value)
  else if eqIgnoreAsciiCase key keyName.toList then
    .ok (if value = "" then seen else { seen with name := some value })
  else .ok seen

/-- The loop over the parameters; `none` is a panic. -/
def readPairs : Seen → List (List Char) → Option (Except PairLinkError Seen)
  | seen, [] => some (.ok seen)
  | seen, pair :: rest =>
      let parts := (splitOnce ['='] pair).getD (pair, [])
      match decode (String.ofList parts.2) with
      | none => none
      | some value =>
          match seen.record parts.1 value with
          | .error e => some (.error e)
          | .ok seen => readPairs seen rest

def isNodeIdChar (c : Char) : Bool := c.isAlphanum || c == '-' || c == '_' || c == '.'

/-- Not empty, at most 128 bytes, and made of node-id characters. -/
def isNodeId (text : String) : Bool :=
  text != "" && (bytes text.toList).length ≤ 128 && text.toList.all isNodeIdChar

/-- The link of the parameters. -/
def Seen.link (seen : Seen) : Except PairLinkError PairLink :=
  match seen.nodeId with
  | none => .error .missingNodeId
  | some nodeId =>
      if isNodeId nodeId then
        let version := seen.version.getD protocolVersion
        if version = protocolVersion then .ok { version, nodeId, name := seen.name }
        else .error (.unsupportedVersion version)
      else .error (.invalidNodeId nodeId)

/-- `PairLink::parse`; `none` is a panic. -/
def parse (raw : String) : Option (Except PairLinkError PairLink) :=
  match queryOf (trim raw).toList with
  | .error e => some (.error e)
  | .ok query =>
      (readPairs ⟨none, none, none⟩ ((query.splitOn '&').filter fun pair => !pair.isEmpty)).map
        fun r => r.bind Seen.link

end SyncPairLink
