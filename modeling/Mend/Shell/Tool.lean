import Mend.Files.Store
import Mend.Text.Lossy

/-! The tools that shell scripts use. -/
namespace Mend.Shell

/-- A shell at work: the files with the current directory, its name and arguments, the variables it
knows, the status of the last command, and what was written so far. -/
structure Machine where
  files : Files
  name : String
  arguments : List String
  environment : List (String × String)
  status : Nat := 0
  stdout : List UInt8 := []
  stderr : List UInt8 := []

/-- Whether a shell goes on after a command, and how it ends if it does not. -/
inductive Flow
  | next
  | exit
  | killed
deriving DecidableEq

/-- What a tool does. -/
structure Reply where
  machine : Machine
  status : Nat := 0
  stdout : List UInt8 := []
  stderr : List UInt8 := []
  flow : Flow := .next

abbrev Tool := Machine → List String → List UInt8 → Reply

def utf8 (s : String) : List UInt8 := s.toUTF8.toList

/-- A byte of at most `n` octal digits, and the rest of a text. -/
def octalByte (n : Nat) (cs : List Char) : UInt8 × List Char :=
  let digits := (cs.take n).takeWhile fun c => '0' ≤ c && c ≤ '7'
  (UInt8.ofNat (digits.foldl (fun a c => 8 * a + (c.toNat - '0'.toNat)) 0), cs.drop digits.length)

def simpleEscape? (c : Char) : Option UInt8 :=
  match c with
  | 'a' => some 7
  | 'b' => some 8
  | 'f' => some 12
  | 'n' => some 10
  | 'r' => some 13
  | 't' => some 9
  | 'v' => some 11
  | '\\' => some 92
  | _ => none

/-- The bytes of a text with backslash escapes, and whether it asks for an end of all output. -/
def unescape : Nat → List Char → List UInt8 × Bool
  | 0, _ | _ + 1, [] => ([], false)
  | fuel + 1, c :: cs =>
    let go := fun (bs : List UInt8) (rest : List Char) =>
      let (more, stop) := unescape fuel rest
      (bs ++ more, stop)
    if c = '\\' then
      match cs with
      | 'c' :: _ => ([], true)
      | '0' :: rest =>
        let (b, rest) := octalByte 3 rest
        go [b] rest
      | d :: rest =>
        match simpleEscape? d with
        | some b => go [b] rest
        | none => go (utf8 (String.ofList [c, d])) rest
      | [] => go [92] []
    else go (utf8 c.toString) cs

/-- Print arguments with blanks between them and, unless the first one is `-n`, a line break behind
them. -/
def echo (escapes : Bool) : Tool := fun m arguments _ =>
  let quiet := arguments.head? = some "-n"
  let text := " ".intercalate (if quiet then arguments.drop 1 else arguments)
  let (bytes, stop) :=
    if escapes then unescape (text.length + 1) text.toList else (utf8 text, false)
  { machine := m, stdout := bytes ++ (if quiet || stop then [] else [10]) }

/-- One turn of a format: its output, the arguments left, and whether it takes arguments. -/
def format : Nat → List Char → List String → List UInt8 × List String × Bool
  | 0, _, as | _ + 1, [], as => ([], as, false)
  | fuel + 1, c :: cs, as =>
    let go := fun (bs : List UInt8) (rest : List Char) (as : List String) (takes : Bool) =>
      let (more, as, t) := format fuel rest as
      (bs ++ more, as, takes || t)
    match c, cs with
    | '%', '%' :: rest => go [37] rest as false
    | '%', 's' :: rest => go (utf8 (as.headD "")) rest (as.drop 1) true
    | '%', 'd' :: rest => go (utf8 (toString ((as.headD "0").toInt?.getD 0))) rest (as.drop 1) true
    | '\\', d :: rest =>
      if '0' ≤ d && d ≤ '7' then
        let (b, rest) := octalByte 3 (d :: rest)
        go [b] rest as false
      else
        match simpleEscape? d with
        | some b => go [b] rest as false
        | none => go (utf8 (String.ofList [c, d])) rest as false
    | _, _ => go (utf8 c.toString) cs as false

/-- The format once, and again while it takes arguments and some are left. -/
def formatAll (cs : List Char) : Nat → List String → List UInt8
  | 0, _ => []
  | fuel + 1, as =>
    let (bs, rest, takes) := format (cs.length + 1) cs as
    if takes && !rest.isEmpty then bs ++ formatAll cs fuel rest else bs

def printf : Tool := fun m arguments _ =>
  match arguments with
  | [] => { machine := m, status := 2 }
  | f :: rest => { machine := m, stdout := formatAll f.toList (rest.length + 1) rest }

/-- Print files one after the other, or the input. -/
def cat : Tool := fun m arguments input =>
  let paths := if arguments.isEmpty then ["-"] else arguments
  paths.foldl (fun r path =>
    if path = "-" then { r with stdout := r.stdout ++ input }
    else
      match m.files.read path with
      | .ok bs => { r with stdout := r.stdout ++ bs }
      | .error e =>
        let message := "cat: " ++ path ++ ": " ++ e.message ++ "\n"
        { r with status := 1, stderr := r.stderr ++ utf8 message })
    { machine := m }

def node? (fs : Files) (path : String) : Option Node :=
  match fs.place path with
  | .ok p => fs.node? p
  | .error _ => none

/-- Whether a file has a property that a letter stands for. -/
def fileTest (fs : Files) (letter path : String) : Bool :=
  match node? fs path, letter with
  | some (.file content _), "-s" => !content.isEmpty
  | some (.file ..), "-x" => fs.canRun path
  | some (.file ..), "-d" => false
  | some .directory, "-f" => false
  | some _, _ => true
  | none, _ => false

def compare? (operator a b : String) : Option Bool :=
  let numbers := fun (p : Int → Int → Bool) => return p (← a.toInt?) (← b.toInt?)
  match operator with
  | "=" => some (a = b)
  | "!=" => some (a ≠ b)
  | "-eq" => numbers fun x y => x = y
  | "-ne" => numbers fun x y => x ≠ y
  | "-lt" => numbers fun x y => x < y
  | "-le" => numbers fun x y => x ≤ y
  | "-gt" => numbers fun x y => y < x
  | "-ge" => numbers fun x y => y ≤ x
  | _ => none

/-- Whether a condition holds, by the number of its words; `none` where it is not well-formed. -/
def holds? (fs : Files) : List String → Option Bool
  | [] => some false
  | [a] => some (a ≠ "")
  | ["!", a] => some (a = "")
  | ["-n", a] => some (a ≠ "")
  | ["-z", a] => some (a = "")
  | [letter, path] =>
    if letter ∈ ["-e", "-f", "-d", "-r", "-w", "-x", "-s"] then some (fileTest fs letter path)
    else none
  | ["!", a, b] => (holds? fs [a, b]).map (!·)
  | [a, operator, b] => compare? operator a b
  | "!" :: rest => (holds? fs rest).map (!·)
  | _ => none

def test : Tool := fun m arguments _ =>
  { machine := m, status := match holds? m.files arguments with
    | some true => 0
    | some false => 1
    | none => 2 }

def bracket : Tool := fun m arguments input =>
  if arguments.getLast? = some "]" then test m arguments.dropLast input
  else { machine := m, status := 2, stderr := utf8 (m.name ++ ": 1: [: missing ]\n") }

def cd : Tool := fun m arguments _ =>
  match m.files.place (arguments.headD "") with
  | .ok p =>
    if m.files.isDirectory p then { machine := { m with files := { m.files with here := p } } }
    else { machine := m, status := 2 }
  | .error _ => { machine := m, status := 2 }

def pwd : Tool := fun m _ _ =>
  { machine := m, stdout := utf8 ("/" ++ "/".intercalate m.files.here ++ "\n") }

def exit : Tool := fun m arguments _ =>
  { machine := m, flow := .exit, status := match arguments with
    | a :: _ => a.toNat?.getD 2 % 256
    | [] => m.status }

/-- A signal ends the shell when it is sent to the shell itself. -/
def kill : Tool := fun m arguments _ =>
  { machine := m, flow := if arguments.getLast? = some "$" then .killed else .next }

def shift : Tool := fun m _ _ => { machine := { m with arguments := m.arguments.drop 1 } }

/-- Set variables; ones without a value stay as they are. -/
def assign : Tool := fun m arguments _ =>
  let environment := arguments.filterMap fun a =>
    if '=' ∈ a.toList then
      some (String.ofList (a.toList.takeWhile (· ≠ '=')),
        String.ofList ((a.toList.dropWhile (· ≠ '=')).drop 1))
    else none
  { machine := { m with environment := environment.reverse ++ m.environment } }

/-- Read a line into a variable; there is none at the end of the input. -/
def readLine : Tool := fun m arguments input =>
  let line := Text.decodeLossy (input.takeWhile (· ≠ 10))
  { machine := { m with environment := (arguments.headD "REPLY", line) :: m.environment }
    status := if 10 ∈ input then 0 else 1 }

/-- Tools that are programs of their own. -/
def programs : List (String × Tool) := [
  ("echo", echo false), ("printf", printf), ("cat", cat), ("test", test), ("[", bracket),
  ("true", fun m _ _ => { machine := m }), ("false", fun m _ _ => { machine := m, status := 1 }),
  ("sleep", fun m _ _ => { machine := m }), ("pwd", pwd)]

/-- Tools that are part of the shell. -/
def builtins : List (String × Tool) := [
  ("echo", echo true), (":", fun m _ _ => { machine := m }), ("cd", cd), ("exit", exit),
  ("kill", kill), ("shift", shift), ("export", assign), ("read", readLine)] ++ programs

end Mend.Shell
