-- SUMMARY: The host of an authority, and whether a certificate can be checked against it.
import SpeechClient.Text.Digits
import SpeechClient.Uri

/-!
# Server names

TLS checks the certificate of a server against the name of its host. That must be a name of the domain name system
or a numeric address of the fourth version of the Internet protocol; an address in brackets is none of them.
-/

namespace SpeechClient

/-! ## Hosts -/

/-- What follows the last occurrence of a character; the whole text if there is none. -/
def afterLast (mark : Char) (text : List Char) : List Char :=
  (text.reverse.takeWhile (· ≠ mark)).reverse

/-- The host in an authority, brackets included. -/
def Uri.hostOf (authority : List Char) : List Char :=
  let rest := afterLast '@' authority
  if rest.head? = some '[' then rest.takeWhile (· ≠ ']') ++ [']'] else rest.takeWhile (· ≠ ':')

/-- The host of an absolute URI. -/
def Uri.host? : Uri → Option String
  | .absolute _ place _ => some (String.ofList (Uri.hostOf place.toList))
  | _                   => none

/-! ## Names -/

/-- The most characters of a name, and of each of its labels. -/
def maxDomainName : Nat := 253
def maxDomainLabel : Nat := 63

/-- Whether a text is a label: letters, digits, underscores and dashes, but no dash at either end. -/
def isDomainLabel (label : List Char) : Bool :=
  label ≠ [] && label.length ≤ maxDomainLabel
    && label.all (fun c => c.isAlphanum || c = '_' || c = '-')
    && label.head? ≠ some '-' && label.getLast? ≠ some '-'

/-- The labels of a name, which may end with a dot. -/
def domainLabels (name : List Char) : List (List Char) :=
  let labels := name.splitOn '.'
  if labels.getLast? = some [] then labels.dropLast else labels

/-- Whether a text is a domain name. Its last label is more than a number. -/
def isDomainName (name : List Char) : Bool :=
  let labels := domainLabels name
  name.length ≤ maxDomainName && labels.all isDomainLabel && labels.getLast?.any fun l => !l.all Char.isDigit

/-- Whether a text is a number of one byte without leading zeros. -/
def isByteNumber (text : List Char) : Bool :=
  text ≠ [] && text.length ≤ 3 && text.all Char.isDigit && (text.length = 1 || text.head? ≠ some '0')
    && digitsValue 10 text < 256

/-- Whether a text is a numeric address: four bytes between dots. -/
def isNumericAddress (text : List Char) : Bool :=
  let bytes := text.splitOn '.'
  bytes.length = 4 && bytes.all isByteNumber

/-- Whether certificates can be checked against a host. -/
def isServerName (host : String) : Bool :=
  isDomainName host.toList || isNumericAddress host.toList

end SpeechClient
