import Reckoner.Expr.Printer
import Reckoner.Text.Unprintable

/-! # The record notation of expressions

In record notation every node shows the name of its form and of all its parts, texts stand in
quotes, and numbers always show that they are not whole numbers.
-/
namespace Reckoner

namespace Record

def hex (n : Nat) : List Char :=
  Nat.toDigits 16 n

/-- A character inside quotes: a short escape for the quote, the backslash and the common controls,
and the code point of any other unprintable character. -/
def quotedChar (c : Char) : List Char :=
  if c = '"' then ['\\', '"']
  else if c = '\\' then ['\\', '\\']
  else if c = '\n' then ['\\', 'n']
  else if c = '\r' then ['\\', 'r']
  else if c = '\t' then ['\\', 't']
  else if c.toNat = 0 then ['\\', '0']
  else if Text.isUnprintable c then ['\\', 'u', '\x7b'] ++ hex c.toNat ++ ['\x7d']
  else [c]

def quoted (s : String) : String :=
  String.ofList (['"'] ++ s.toList.flatMap quotedChar ++ ['"'])

def list (parts : List String) : String :=
  "[" ++ ", ".intercalate parts ++ "]"

def record (name : String) (parts : List String) : String :=
  name ++ " \x7b " ++ ", ".intercalate parts ++ " \x7d"

def part (name value : String) : String :=
  name ++ ": " ++ value

/-- A positive number with an exponent: one digit before the point, and a point only if digits
follow it. -/
def scientific (d : Decimal) : String :=
  let row := Decimal.digits d.coefficient
  let exponent := d.exponent + (row.length - 1 : Nat)
  let fraction := if row.length = 1 then [] else '.' :: row.drop 1
  String.ofList (row.take 1 ++ fraction) ++ "e" ++ toString exponent

/-- A positive number in record notation: with an exponent below a ten-thousandth and from ten to
the sixteenth on, and otherwise with at least one digit after the point. -/
def positiveNumber (x : Float) : String :=
  let d := Decimal.shortest x
  if x < 1e-4 || 1e16 ≤ x then scientific d
  else String.ofList d.positional ++ (if d.places = 0 then ".0" else "")

def number (x : Float) : String :=
  if x.isNaN then "NaN"
  else if x.isInf then (if 0.0 < x then "inf" else "-inf")
  else if x == 0.0 then (if x.toBits = 0 then "0.0" else "-0.0")
  else if x < 0.0 then "-" ++ positiveNumber (-x)
  else positiveNumber x

end Record

open Record

mutual

def Ty.record : Ty → String
  | number => "Number"
  | boolean => "Boolean"
  | function ps r =>
    "Function(" ++ Record.record "FunctionType"
      [part "params" (list (Ty.records ps)), part "result" (Ty.record r)] ++ ")"

def Ty.records : List Ty → List String
  | [] => []
  | t :: ts => Ty.record t :: Ty.records ts

end

def Parameter.record (p : Parameter) : String :=
  Record.record "Parameter" [part "name" (quoted p.name), part "ty" p.ty.record]

/-- Host code in record notation, which leaves the host function out. -/
def NativeCode.record (c : NativeCode) : String :=
  Record.record "NativeCode"
    [part "name" (quoted c.name), part "result" c.result.record,
      part "params" (list (c.params.map quoted)), ".."]

def Record.function (params : List Parameter) (body : String) : String :=
  Record.record "Function"
    [part "params" (list (params.map Parameter.record)), part "body" body]

mutual

def Expr.record : Expr → String
  | .number x => "Number(" ++ Record.number x ++ ")"
  | .boolean b => "Boolean(" ++ Expr.booleanText b ++ ")"
  | .symbol n => "Symbol(" ++ quoted n ++ ")"
  | .binary op l r =>
    Record.record "Binary"
      [part "op" op.name, part "left" (Expr.record l), part "right" (Expr.record r)]
  | .parameter p => "Parameter(" ++ p.record ++ ")"
  | .function _ ps b => "Function(" ++ Record.function ps (Expr.record b) ++ ")"
  | .call f args =>
    Record.record "Call" [part "callee" (quoted f), part "args" (list (Expr.records args))]
  | .native c => "NativeCode(" ++ c.record ++ ")"

def Expr.records : List Expr → List String
  | [] => []
  | e :: es => Expr.record e :: Expr.records es

end

end Reckoner
