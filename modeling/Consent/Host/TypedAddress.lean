import Consent.Text.Blank
import Consent.Text.LetterCase
import Consent.Text.Split

/-! Addresses as people type them. -/

namespace Consent.Host

open Text

def slashlessSchemes : List String := ["about:", "data:", "file:", "javascript:", "blob:"]

/-- Whether the text begins with a scheme, as far as a rough test tells. -/
def hasScheme (s : List Char) : Bool :=
  occursIn [':', '/', '/'] s
    || slashlessSchemes.any fun scheme => scheme.toList.isPrefixOf (lower s)

def endsHost (c : Char) : Bool := c = '/' || c = '?' || c = '#' || c = '^'

/-- Whether the text begins with a host, as far as a rough test tells: a bracketed literal,
`localhost`, or a name with a dot inside. -/
def looksLikeHost (s : List Char) : Bool :=
  if s.isEmpty || s.any (fun c => c = ' ' || c = '\t') then false
  else
    let host := s.takeWhile (!endsHost ·)
    if host.head? = some '[' then host.contains ']'
    else
      let name := match cutLast? ':' host with
        | some (before, _) => before
        | none => host
      name = "localhost".toList
        || (name.contains '.' && name.head? ≠ some '.' && name.getLast? ≠ some '.')

/-- Adds `https://` to a host without a scheme; all else is only trimmed. -/
def completeAddress (s : List Char) : List Char :=
  let s := trim s
  if s.isEmpty || hasScheme s then s
  else if looksLikeHost s then ['h', 't', 't', 'p', 's', ':', '/', '/'] ++ s
  else s

end Consent.Host
