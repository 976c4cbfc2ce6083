import UnitCheck.Fault.Basic
import UnitCheck.Syntax.Wire

/-!
# Faults in files

The packed form of faults, and their form in JSON documents that hold whole results.
-/

namespace UnitCheck

open Codec

def Severity.codec : Codec Severity := uint8.map .mk Severity.level
def FaultCode.codec : Codec FaultCode := uint16.map .mk FaultCode.number

def Note.codec : Codec Note := record ⟨.zero, .empty⟩ [
  field "span" Span.codec (·.span) ({ · with span := · }),
  field "msg" text (·.message) ({ · with message := · })]

def Fault.codec : Codec Fault := record ⟨⟨0⟩, ⟨0⟩, .empty, .zero, []⟩ [
  field "severity" Severity.codec (·.severity) ({ · with severity := · }),
  field "code" FaultCode.codec (·.code) ({ · with code := · }),
  field "message" text (·.message) ({ · with message := · }),
  field "primary" Span.codec (·.span) ({ · with span := · }),
  fieldUnless List.isEmpty "notes" (list Note.codec) (·.notes) ({ · with notes := · })]

end UnitCheck
