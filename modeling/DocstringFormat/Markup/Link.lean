import DocstringFormat.Character.Word
import DocstringFormat.Text.Basic

/-!
Links in running text.

A link is a scheme and a colon, with all that follows up to the next blank, and the markup in
front of it: an angle bracket, a quote, an anonymous or a named target, or the title of an
inline reference.  Where several titles are possible the longest run of each part wins.
-/

set_option autoImplicit false

namespace DocstringFormat.Markup

open Character (isBlank isWord)

structure Span where
  start : Nat
  stop : Nat
deriving DecidableEq

namespace Span

def overlaps (a b : Span) : Bool :=
  a.start < b.stop && b.start < a.stop

def of (a : Span) (s : Text) : Text :=
  s.extract a.start a.stop

end Span

def schemes : List Text :=
  ["afp", "apt", "bitcoin", "chrome", "cvs", "dav", "dns", "file", "finger", "fish", "ftp",
   "ftps", "git", "http", "https", "imap", "ipp", "ipps", "irc", "irc6", "ircs", "jar", "ldap",
   "ldaps", "mailto", "news", "nfs", "nntp", "pop", "rsync", "s3", "sftp", "shttp", "sip",
   "sips", "smb", "sms", "snmp", "ssh", "svn", "telnet", "vnc", "xmpp", "xri"].map String.toList

def afterScheme? (s : Text) : Option Text :=
  schemes.findSome? (fun scheme => Text.after? (scheme ++ [':']) s)

/-- What follows a link target: an angle bracket if there is one, a scheme, and all up to the
next blank. -/
def afterTarget? : Text → Option Text
  | '<' :: s => (afterScheme? s).map (List.dropWhile (fun c => !isBlank c))
  | s => (afterScheme? s).map (List.dropWhile (fun c => !isBlank c))

def isTitleChar (c : Char) : Bool :=
  isWord c || c == ' ' || c == ':' || c == '#' || c == '\n'

def isTitleEndChar (c : Char) : Bool :=
  isWord c || c ∈ ['.', '|', '\\', ' ', '_', '?', '[', ':']

def isTargetNameChar (c : Char) : Bool :=
  isWord c || c ∈ ['.', ' ', ':', '-']

def afterLink? : Text → Option Text
  | '_' :: '_' :: ' ' :: s => afterTarget? s
  | '`' :: '`' :: s => afterTarget? s
  | '`' :: c :: s =>
    if isWord c then
      (Text.afterRun isTitleChar s).findSome? fun t =>
        (Text.afterRun1 isTitleEndChar t).findSome? afterTarget?
    else none
  | '.' :: '.' :: ' ' :: '_' :: s =>
    (Text.afterRun1 isTargetNameChar s).findSome? afterTarget?
  | '\'' :: s => afterTarget? s
  | s => afterTarget? s

def linkLength? (s : Text) : Option Nat :=
  (afterLink? s).map (fun rest => s.length - rest.length)

/-- Whether a scheme is followed by at most three slashes and then by nothing of a target. -/
def isSchemeOnly (s : Text) : Bool :=
  match afterScheme? s with
  | none => false
  | some rest =>
    let slashes := rest.takeWhile (· == '/')
    slashes.length ≤ 3 &&
      match rest.drop slashes.length with
      | [] => true
      | c :: _ => c == ' ' || c == '>'

structure Link where
  span : Span
  /-- Whether the link names a scheme and no place, so that it is read as plain text. -/
  bare : Bool
deriving DecidableEq

def linksFrom (offset : Nat) : Text → List Link
  | [] => []
  | c :: rest =>
    match linkLength? (c :: rest) with
    | none => linksFrom (offset + c.utf8Size) rest
    | some n =>
      let hit : Text := c :: rest.take (n - 1)
      ⟨⟨offset, offset + hit.size⟩, hit.anyEnd isSchemeOnly⟩ ::
        linksFrom (offset + hit.size) (rest.drop (n - 1))
termination_by s => s.length

def links (s : Text) : List Link :=
  linksFrom 0 s

def leadingLink? (s : Text) : Option Text :=
  (linkLength? s).map s.take

def startsWithLink (line : Text) : Bool :=
  match leadingLink? line.trimStart with
  | none => false
  | some hit => !hit.anyEnd isSchemeOnly

end DocstringFormat.Markup
