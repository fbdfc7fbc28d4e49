import MqBroker.Lib.Bytes

/-!
# Topic Names

The check every topic name passes before it reaches the storage engine or
the topic table: at most 64 bytes, none of them a control byte or a character
the file system reserves, and the whole a valid UTF-8 string.

The UTF-8 walk follows the source's loop, one code point a turn. The length
of a code point is read off its first byte, so the turns that take two, three
and four bytes are separate branches here, each with the continuation bytes
it consumes in its pattern.

## Main definitions

* `isContinuation`: A UTF-8 continuation byte.
* `isValidUtf8`: The UTF-8 walk.
* `isValidTopicName`: The check on a topic name.
-/

namespace MqBroker

/-- `IsContinuation`: the byte has the form `10xxxxxx`. -/
def isContinuation (byte : UInt8) : Bool := byte &&& 0xC0 == 0x80

/-- The second-byte restrictions: no overlong forms, no surrogates, nothing
    above the last code point. -/
def badSecond (first second : UInt8) : Bool :=
  (first == 0xE0 && second < 0xA0) || (first == 0xED && second ≥ 0xA0) ||
    (first == 0xF0 && second < 0x90) || (first == 0xF4 && second ≥ 0x90)

/-- `IsValidUtf8`: one code point a turn, until the bytes are used up. -/
def isValidUtf8 : Bytes → Bool
  | [] => true
  | first :: rest =>
      if first < 0x80 then isValidUtf8 rest
      else if 0xC2 ≤ first ∧ first ≤ 0xDF then
        match rest with
        | second :: rest =>
            isContinuation second && !badSecond first second && isValidUtf8 rest
        | _ => false
      else if 0xE0 ≤ first ∧ first ≤ 0xEF then
        match rest with
        | second :: third :: rest =>
            isContinuation second && isContinuation third && !badSecond first second &&
              isValidUtf8 rest
        | _ => false
      else if 0xF0 ≤ first ∧ first ≤ 0xF4 then
        match rest with
        | second :: third :: fourth :: rest =>
            isContinuation second && isContinuation third && isContinuation fourth &&
              !badSecond first second && isValidUtf8 rest
        | _ => false
      else false

/-- The bytes a topic name may not contain: control bytes and the characters
    `/ \ : * ? " < > |`. -/
def forbiddenTopicByte (byte : UInt8) : Bool :=
  byte < 0x20 || byte == 0x2F || byte == 0x5C || byte == 0x3A || byte == 0x2A || byte == 0x3F ||
    byte == 0x22 || byte == 0x3C || byte == 0x3E || byte == 0x7C

/-- `IsValidTopicName`. -/
def isValidTopicName (topic : Bytes) : Bool :=
  !topic.isEmpty && topic.length ≤ 64 && topic != [0x2E] && topic != [0x2E, 0x2E] &&
    !topic.any forbiddenTopicByte && isValidUtf8 topic

end MqBroker
