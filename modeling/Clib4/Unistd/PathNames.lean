import Mathlib.Data.List.DropRight
import Mathlib.Data.List.Basic

namespace Clib4.Unistd

/-!
# Translating path names

`__translate_unix_to_amiga_path_name()`, `__translate_amiga_to_unix_path_name()`
and `__strip_double_slash()`.  A name is the list of its characters, without the
NUL.  The functions work in place in the buffer of a `name_translation_info`;
every pass reads ahead of what it writes, so that each of them is a function from
names to names here.
-/

/-- `PATH_MAX`, the size of the buffer for a name. -/
def pathMax : Nat := 1024

/-- The errors a name can cause. -/
inductive PathError
  | nameTooLong
  | invalid
  deriving DecidableEq, Repr

/-- What a translation delivers: the name, and whether it is the root. -/
structure Translated where
  name : List Char
  isRoot : Bool
  deriving DecidableEq, Repr

/-! ## Slashes -/

def hasDoubleSlash : List Char -> Bool
  | '/' :: '/' :: _ => true
  | _ :: rest => hasDoubleSlash rest
  | [] => false

/-- The loop of `__strip_double_slash` down to the next `//` which follows a
directory name, or to the volume name or the first character. -/
def findParentStep (name : List Char) : Nat -> Option Nat
  | 0 => none
  | position + 1 =>
    if position = 0 \/ name[position]? = some ':' \/ name[position - 1]? = some ':' then none
    else if position > 1 /\ name[position]? = some '/' /\ name[position - 1]? = some '/' /\
        name[position - 2]? ≠ some ':' /\ name[position - 2]? ≠ some '/' then some position
    else findParentStep name position

/-- Where the directory name begins that contains the position. -/
def nameStart (name : List Char) : Nat -> Nat
  | 0 => if name[0]? = some ':' \/ name[0]? = some '/' then 1 else 0
  | position + 1 =>
    if name[position + 1]? = some ':' \/ name[position + 1]? = some '/' then position + 2
    else nameStart name position

/-- The name without the directory name in front of a `//`, and without the `//`. -/
def removeParentStep (name : List Char) (start : Nat) : List Char :=
  name.take (nameStart name (start - 2)) ++ name.drop (start + 1)

/-- `__strip_double_slash`; every removal makes the name shorter. -/
def stripDoubleSlashFrom : Nat -> List Char -> List Char
  | 0, name => name
  | fuel + 1, name =>
    match findParentStep name name.length with
    | none => name
    | some start => stripDoubleSlashFrom fuel (removeParentStep name start)

def stripDoubleSlash (name : List Char) : List Char :=
  stripDoubleSlashFrom name.length name

/-! ## From Unix to Amiga -/

def dropNeighbors : Bool -> List Char -> List Char
  | _, [] => []
  | haveSlash, c :: rest =>
    if c = '/' then
      if haveSlash then dropNeighbors true rest else c :: dropNeighbors true rest
    else c :: dropNeighbors false rest

def stripNeighbors (name : List Char) : List Char :=
  if name.length > 2 /\ hasDoubleSlash name then dropNeighbors false name else name

def stripTrailing : List Char -> List Char
  | [] => []
  | c :: rest => c :: rest.rdropWhile (· == '/')

/-- Ditch all leading `./`. -/
def ditchLeading : List Char -> List Char
  | '.' :: '/' :: c :: rest => ditchLeading (c :: rest)
  | name => name

def hasSlashDotSlash : List Char -> Bool
  | '/' :: '.' :: '/' :: _ => true
  | _ :: rest => hasSlashDotSlash rest
  | [] => false

def dropSlashDot : List Char -> List Char
  | [] => []
  | '/' :: '.' :: rest =>
    -- the slash behind the dot may begin another one
    if rest.head? = some '/' then dropSlashDot rest else '/' :: '.' :: dropSlashDot rest
  | c :: rest => c :: dropSlashDot rest

/-- Ditch all embedded `/./`. -/
def ditchEmbedded (name : List Char) : List Char :=
  if name.length > 2 /\ hasSlashDotSlash name then dropSlashDot name else name

/-- A trailing `/.` is the directory itself. -/
def ditchTrailing (name : List Char) : List Char :=
  if name.length >= 2 /\ name.drop (name.length - 2) = ['/', '.'] then
    if name.length = 2 then ['/'] else name.take (name.length - 2)
  else name

/-- An absolute path; `/tmp` and some devices have Amiga names of their own. -/
def translateAbsolute (name : List Char) : List Char :=
  if name.take 4 = "/tmp".toList /\ (name[4]? = some '/' \/ name.length = 4) then
    if name[4]? = some '/' then "T:".toList ++ name.drop 5 else "T:".toList
  else if name.take 9 = "/dev/null".toList /\ (name.length = 9 \/ name[9]? = some '/') then
    "NIL:".toList
  else if name.take 11 = "/dev/random".toList /\ (name.length = 11 \/ name[11]? = some '/') \/
      name.take 12 = "/dev/urandom".toList /\ (name.length = 12 \/ name[12]? = some '/') then
    "RANDOM:".toList
  else
    let vol := (name.drop 1).takeWhile (· ≠ '/')
    vol ++ ':' :: name.drop (vol.length + 2)

def hasSlashDotDotSlash : List Char -> Bool
  | '/' :: '.' :: '.' :: '/' :: _ => true
  | _ :: rest => hasSlashDotDotSlash rest
  | [] => false

def dropDotDot : List Char -> List Char
  | '/' :: '.' :: '.' :: '/' :: rest => '/' :: '/' :: dropDotDot rest
  | c :: rest => c :: dropDotDot rest
  | [] => []

/-- Replace all embedded `/../`. -/
def replaceEmbedded (name : List Char) : List Char :=
  if name.length > 3 /\ hasSlashDotDotSlash name then dropDotDot name else name

/-- A trailing `/..` becomes `//`. -/
def replaceTrailing (name : List Char) : List Char :=
  if name.length >= 3 /\ name.drop (name.length - 3) = ['/', '.', '.'] then
    name.take (name.length - 2) ++ ['/']
  else name

/-- A leading `../` becomes `/`. -/
def replaceLeading (name : List Char) : List Char :=
  if name.length >= 3 /\ name.take 3 = ['.', '.', '/'] then name.drop 2 else name

/-- A name that is nothing but `..` or `.`. -/
def replaceWhole (name : List Char) : List Char :=
  let name := if name = ['.', '.'] then ['/'] else name
  if name = ['.'] then [] else name

def translateParents (name : List Char) : List Char :=
  replaceWhole (replaceLeading (replaceTrailing (replaceEmbedded name)))

def splitVolume (name : List Char) : List Char × List Char :=
  let vol := name.takeWhile (· ≠ ':')
  if vol.length < name.length then (vol ++ [':'], name.drop (vol.length + 1))
  else ([], name)

def translateUnixToAmigaPathName (path : List Char) : Except PathError Translated :=
  if ':' ∈ path then .ok ⟨path, false⟩
  else if path.length >= pathMax then .error .nameTooLong
  else
    let name := ditchTrailing (ditchEmbedded (ditchLeading (stripTrailing (stripNeighbors path))))
    let root := decide (name = ['/'])
    let name := if name.head? = some '/' then translateAbsolute name else name
    let (vol, name) := splitVolume name
    if '/' ∈ vol then .error .invalid
    else if ':' ∈ name then .error .invalid
    else
      let name := vol ++ translateParents name
      let name :=
        if name.length > 1 /\ hasDoubleSlash name then stripDoubleSlash name else name
      let colonSlash := decide (name.length >= 2 /\ name.drop (name.length - 2) = [':', '/'])
      .ok ⟨name, root || colonSlash⟩

/-! ## From Amiga to Unix -/

/-- The leading slashes of a name become `../`; the last one of a name that is
nothing but slashes is stripped again. -/
def translateLeading : Nat -> List Char -> Except PathError (List Char × List Char)
  | replaceLen, '/' :: rest =>
    if replaceLen + 3 > pathMax - 1 then .error .nameTooLong
    else if rest = [] then .ok (['.', '.'], [])
    else do
      let (replace, rest) <- translateLeading (replaceLen + 3) rest
      return ('.' :: '.' :: '/' :: replace, rest)
  | _, name => .ok ([], name)

/-- A slash that is followed by another one becomes `/..`. -/
def translateEmbedded : Nat -> List Char -> Except PathError (List Char)
  | _, [] => .ok []
  | replaceLen, c :: rest =>
    if c = '/' /\ rest.head? = some '/' then
      if replaceLen + 3 > pathMax - 1 then .error .nameTooLong
      else do
        let replace <- translateEmbedded (replaceLen + 3) rest
        return '/' :: '.' :: '.' :: replace
    else if replaceLen + 1 > pathMax - 1 then .error .nameTooLong
    else do
      let replace <- translateEmbedded (replaceLen + 1) rest
      return c :: replace

def translateSteps (name : List Char) : Except PathError (List Char) := do
  let (leading, rest) <- translateLeading 0 name
  let embedded <- translateEmbedded leading.length rest
  return leading ++ embedded

/-- A path in front of which the name of a volume or device is put. -/
def addVolume (vol path : List Char) : List Char :=
  if path = [] then '/' :: vol else '/' :: vol ++ '/' :: path

/-- `__translate_amiga_to_unix_path_name`; `device` is the name with its colon
that `DevNameFromLock()` finds for the current directory, if it finds one. -/
def translateAmigaToUnixPathName (device : Option (List Char)) (path : List Char) :
    Except PathError (List Char) :=
  if path.length >= pathMax then .error .nameTooLong
  else
    let name := if hasDoubleSlash path then stripDoubleSlash path else path
    if name = [] then .ok ['.']
    else
      let (vol, name) := splitVolume name
      do
        let replace <- translateSteps name
        if vol = [] then return replace
        else if 1 + (vol.length - 1) + 1 + replace.length > pathMax - 1 then
          throw .nameTooLong
        else if vol.length > 1 then return addVolume vol.dropLast replace
        else
          let deviceName := (device.getD []).dropLast
          if deviceName = [] then return '/' :: replace
          else if 1 + deviceName.length + 1 + replace.length > pathMax - 1 then
            throw .nameTooLong
          else return addVolume deviceName replace

end Clib4.Unistd
