import AgentReply.Url.Reader

/-!
# References

What a reference in a response stands for, seen from the URL that was asked for.
-/

namespace AgentReply.Url

def isReferenceChar (c : Char) : Bool :=
  c.isAlphanum || "-._~:/?#[]@!$&'()*+,;=%".toList.contains c

def hasScheme (s : List Char) : Bool :=
  match s.takeWhile isSchemeChar, s.dropWhile isSchemeChar with
  | c :: _, ':' :: _ => c.isAlpha
  | _, _ => false

/-- The text that a reference stands for. -/
def absolute (base : Url) (reference : List Char) : List Char :=
  let scheme := base.scheme.toList ++ [':']
  let origin := scheme ++ base.writeAuthority
  let path := base.path.write
  let directory := (path.reverse.dropWhile (· != '/')).reverse
  if hasScheme reference then reference
  else
    match reference with
    | '/' :: '/' :: _ => scheme ++ reference
    | '/' :: _ => origin ++ reference
    | '?' :: _ => origin ++ path ++ reference
    | [] | '#' :: _ => origin ++ path ++ base.query.elim [] ('?' :: ·) ++ reference
    | _ => origin ++ directory ++ reference

/-- The URL that a reference stands for. -/
def join? [Idna] (base : Url) (reference : String) : Option Url :=
  let s := reference.toList
  if !s.all isReferenceChar then none
  else (parse (String.ofList (base.absolute s))).toOption

end AgentReply.Url
