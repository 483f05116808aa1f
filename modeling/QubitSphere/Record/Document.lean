/-
# Records in TOML documents

A document has an optional `qubit`, `gates` and `sequences`, with the fields of the records.  Other
fields are passed over, and a field of the wrong type makes the whole document unfit.  A qubit, a
sequence or an entry may also be an array of its fields in order; the missing ones of a qubit or
an entry have their defaults.
-/

import QubitSphere.Record.Gate
import QubitSphere.Record.Qubit
import QubitSphere.Record.Sequence
import QubitSphere.Toml.Fields
import QubitSphere.Toml.Line

namespace QubitSphere

open Toml (Fields Value optional required)

/-- The entry that a value writes; an array has at most its two fields. -/
def Entry.ofToml? (value : Value) : Option Entry := do
  if let .array items := value then
    if 2 < items.length then none
  let fields ← value.fields? ["real", "imaginary"]
  return {
    real := ← optional fields "real" "" Value.text?
    imaginary := ← optional fields "imaginary" "" Value.text? }

/-- The gate that a value writes, which has to be a table. -/
def Gate.ofToml? : Value → Option Gate
  | .table fields => do
    return {
      name := ← required fields "name" Value.text?
      scalar := ← optional fields "scalar" "1" Value.text?
      a11 := ← optional fields "a11" {} Entry.ofToml?
      a12 := ← optional fields "a12" {} Entry.ofToml?
      a21 := ← optional fields "a21" {} Entry.ofToml?
      a22 := ← optional fields "a22" {} Entry.ofToml? }
  | _ => none

/-- The basis that a value names. -/
def Basis.ofToml? (value : Value) : Option Basis :=
  value.choice?.bind Basis.ofKey?

/-- The qubit that a value writes. -/
def Qubit.ofToml? (value : Value) : Option Qubit := do
  let fields ← value.fields?
    ["basis", "alpha_real", "alpha_imaginary", "beta_real", "beta_imaginary"]
  let part (name : String) := optional fields name none fun value => value.text?.map some
  return {
    basis := ← optional fields "basis" .computational Basis.ofToml?
    alphaReal := ← part "alpha_real"
    alphaImaginary := ← part "alpha_imaginary"
    betaReal := ← part "beta_real"
    betaImaginary := ← part "beta_imaginary" }

/-- The sequence that a value writes. -/
def Sequence.ofToml? (value : Value) : Option Sequence := do
  let fields ← value.fields? ["name", "gates"]
  return {
    name := ← required fields "name" Value.text?
    gates := ← required fields "gates" (Value.listOf? Value.text?) }

/-- What a user hands in. -/
structure Document where
  qubit : Qubit := {}
  gates : List Gate := []
  sequences : List Sequence := []

namespace Document

/-- The document with the given fields. -/
def ofFields? (fields : Fields) : Option Document := do
  return {
    qubit := ← optional fields "qubit" {} Qubit.ofToml?
    gates := ← optional fields "gates" [] (Value.listOf? Gate.ofToml?)
    sequences := ← optional fields "sequences" [] (Value.listOf? Sequence.ofToml?) }

/-- The document that a text writes. -/
def read? (text : String) : Option Document :=
  (Toml.read? text).bind ofFields?

end Document
end QubitSphere
