import FlatPath.Item
import FlatPath.Limits

/-!
What can be wrong with a buffer. A `FormatError` refuses a buffer that is being opened or verified;
a `Fault` is met by a reader that goes through a buffer nobody verified.
-/

namespace FlatPath

/-- Why the bytes at a position are not an acceptable item. -/
inductive Defect
  | itemOutOfBounds
  | truncatedNext
  | truncatedString
  | missingTerminator
  | truncatedNumeric
  | truncatedBool
  | invalidBool
  | truncatedOperand
  | truncatedFlags
  | truncatedPattern
  | truncatedLevels
  | truncatedCount
  | truncatedSlots
  | missingOperand
  | repeatedItem
  | illegibleString
  | emptyNumeric
  | illegibleNumeric
  | illegiblePattern
  | currentOutsideFilter
  | lastOutsideSubscript
  | constructorWithoutExtensions
  | negativeOffset
  | offsetOutOfBounds
deriving DecidableEq, Inhabited

def Defect.text : Defect → String
  | .itemOutOfBounds => "item out of bounds"
  | .truncatedNext => "truncated next offset"
  | .truncatedString => "truncated string"
  | .missingTerminator => "missing string terminator"
  | .truncatedNumeric => "truncated numeric"
  | .truncatedBool => "truncated bool"
  | .invalidBool => "invalid bool value"
  | .truncatedOperand => "truncated operand offset"
  | .truncatedFlags => "truncated regex flags"
  | .truncatedPattern => "truncated regex pattern"
  | .truncatedLevels => "truncated level bounds"
  | .truncatedCount => "truncated element count"
  | .truncatedSlots => "truncated offset slots"
  | .missingOperand => "missing required operand"
  | .repeatedItem => "item referenced twice"
  | .illegibleString => "string is not valid UTF-8"
  | .emptyNumeric => "empty numeric literal"
  | .illegibleNumeric => "numeric is not valid UTF-8"
  | .illegiblePattern => "regex pattern is not valid UTF-8"
  | .currentOutsideFilter => "@ outside a filter"
  | .lastOutsideSubscript => "last outside an array subscript"
  | .constructorWithoutExtensions => "constructor without extensions"
  | .negativeOffset => "negative offset"
  | .offsetOutOfBounds => "offset out of bounds"

/-- Why a file could not be read or written. -/
inductive FileError
  | notFound
  | notDirectory
  | isDirectory
  | nameTooLong
  | refused (reason : String)
deriving DecidableEq, Inhabited

def FileError.message : FileError → String
  | .notFound => "No such file or directory (os error 2)"
  | .notDirectory => "Not a directory (os error 20)"
  | .isDirectory => "Is a directory (os error 21)"
  | .nameTooLong => "File name too long (os error 36)"
  | .refused reason => reason

inductive FormatError
  | tooShort (size : Nat)
  | unsupportedVersion (version : UInt8)
  | unknownKind (position : Nat) (tag : UInt8)
  | corrupt (position : Nat) (defect : Defect)
  | limit (error : LimitError)
  | file (error : FileError)
deriving DecidableEq, Inhabited

namespace FormatError

def message : FormatError → String
  | tooShort size => "buffer too small: " ++ toString size ++ " bytes (minimum 4)"
  | unsupportedVersion version =>
    "unsupported version: " ++ toString version.toNat ++ " (expected 1)"
  | unknownKind position tag =>
    "unrecognized item type " ++ toString tag.toNat ++ " at " ++ toString position
  | corrupt position defect => "corrupt buffer at " ++ toString position ++ ": " ++ defect.text
  | limit error => error.message
  | file error => "io error: " ++ error.message

/-- The bytes themselves are at fault. -/
def isCorruption : FormatError → Bool
  | tooShort _ | unsupportedVersion _ | unknownKind _ _ | corrupt _ _ => true
  | limit _ | file _ => false

end FormatError

/-- What a reader asked of an item that only items of other kinds have. -/
inductive Facet
  | argument | text | elements | levels
  | operator | bool | numeric | likeRegex
deriving DecidableEq, Inhabited

def Facet.complaint : Facet → String
  | .argument => "has no argument"
  | .text => "has no text"
  | .elements => "has no elements"
  | .levels => "has no level bounds"
  | .operator => "is not a binary operator"
  | .bool => "is not a bool"
  | .numeric => "is not a numeric"
  | .likeRegex => "is not like_regex"

/-- The kinds whose operands are numbered. -/
inductive Listing
  | subscripts | elements | fields
deriving DecidableEq, Inhabited

namespace Listing

def complaint : Listing → String
  | subscripts => "not an index array"
  | elements => "not a sequence"
  | fields => "not an object"

def entry : Listing → String
  | subscripts => "subscript"
  | elements => "element"
  | fields => "field"

end Listing

/-- A stretch of bytes that should be UTF-8. -/
inductive Script
  | text | numeric | pattern
deriving DecidableEq, Inhabited

def Script.complaint : Script → String
  | .text => "invalid UTF-8 in jsonpath string"
  | .numeric => "invalid UTF-8 in numeric literal"
  | .pattern => "invalid UTF-8 in regex pattern"

inductive Fault
  | corrupt (error : FormatError)
  | missingOperand (owner : Kind) (role : Role)
  | missingArgument (owner : Kind)
  | lacks (owner : Kind) (facet : Facet)
  | unlisted (listing : Listing)
  | outOfRange (listing : Listing) (index : Nat)
  | illegible (script : Script)
deriving DecidableEq, Inhabited

def Fault.message : Fault → String
  | .corrupt error => "corrupt jsonpath buffer: " ++ error.message
  | .missingOperand owner role => owner.title ++ " item has no " ++ role.name ++ " operand"
  | .missingArgument owner => owner.title ++ " item without argument"
  | .lacks owner facet => owner.title ++ " item " ++ facet.complaint
  | .unlisted listing => listing.complaint
  | .outOfRange listing index => listing.entry ++ " " ++ toString index ++ " out of range"
  | .illegible script => script.complaint

/-- What ends a walk over a buffer early. -/
inductive ReadError
  | limit (error : LimitError)
  | fault (fault : Fault)
deriving DecidableEq, Inhabited

def ReadError.message : ReadError → String
  | .limit e => e.message
  | .fault f => f.message

end FlatPath
